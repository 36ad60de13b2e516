import RouterCli.Log.Severity
import RouterCli.Registry

/-!
  RouterCli.Command.Standard

  The nodes and commands that every command line carries: changes of mode, the
  running configuration, the settings of the host and the log. The tables below
  are data; `standard` lists their installation in order.
-/

namespace RouterCli.Standard

-- ============================================================================
-- Building blocks
-- ============================================================================

/-- Lines of help, each with its line break. -/
def helpText (lines : List String) : String :=
  String.join (lines.map (· ++ "\n"))

/-- A command of the library, shown in help and lists. -/
def command (action : Builtin) (pattern : String) (help : List String) : CommandSpec :=
  { action := .builtin action, pattern, doc := helpText help }

/-- The severities as one group of a pattern. -/
def severityChoice : String :=
  "(" ++ "|".intercalate (Severity.all.map (·.name)) ++ ")"

/-- A line of help for each severity. -/
def severityDocs : List String :=
  ["System is unusable", "Immediate action needed", "Critical conditions",
    "Error conditions", "Warning conditions", "Normal but significant conditions",
    "Informational messages", "Debugging messages"]

-- ============================================================================
-- Commands
-- ============================================================================

/-- Command `show version`. -/
def showVersion : CommandSpec :=
  command .showVersion "show version"
    ["Show running system information", "Displays program version"]

/-- Command `list`. -/
def list : CommandSpec :=
  command .list "list" ["Print command list"]

/-- Command `help`. -/
def help : CommandSpec :=
  command .help "help" ["Description of the interactive help system"]

/-- Command `exit`. -/
def exit : CommandSpec :=
  command .exit "exit" ["Exit current mode and down to previous mode"]

/-- Command `end`. -/
def leave : CommandSpec :=
  command .leave "end" ["End current mode and change to enable mode."]

/-- Command `enable`. -/
def enable : CommandSpec :=
  command .enable "enable" ["Turn on privileged mode command"]

/-- Command `disable`. -/
def disable : CommandSpec :=
  command .disable "disable" ["Turn off privileged mode command"]

/-- Command `configure terminal`. -/
def configureTerminal : CommandSpec :=
  command .configure "configure terminal"
    ["Configuration from vty interface", "Configuration terminal"]

/-- Command `terminal length <0-512>`. -/
def terminalLength : CommandSpec :=
  command .terminalLength "terminal length <0-512>"
    ["Set terminal line parameters", "Set number of lines on a screen",
      "Number of lines on screen (0 for no pausing)"]

/-- Command `terminal no length`. -/
def terminalNoLength : CommandSpec :=
  command .noTerminalLength "terminal no length"
    ["Set terminal line parameters", "Negate a command or set its defaults",
      "Set number of lines on a screen"]

/-- Command `echo .MESSAGE`. -/
def echo : CommandSpec :=
  { command .echo "echo .MESSAGE"
      ["Echo a message back to the vty", "The message to echo"] with
    visibility := .hidden }

/-- Command `write terminal`. -/
def writeTerminal : CommandSpec :=
  command .writeTerminal "write terminal"
    ["Write running configuration to memory, network, or terminal", "Write to terminal"]

/-- Command `show running-config`. -/
def showRunningConfig : CommandSpec :=
  command .writeTerminal "show running-config"
    ["Show running system information", "running configuration"]

/-- Command `write file`. -/
def writeFile : CommandSpec :=
  command .writeFile "write file"
    ["Write running configuration to memory, network, or terminal", "Write to configuration file"]

/-- Command `write memory`. -/
def writeMemory : CommandSpec :=
  command .writeFile "write memory"
    ["Write running configuration to memory, network, or terminal",
      "Write configuration to the file (same as write file)"]

/-- Command `write`. -/
def write : CommandSpec :=
  command .writeFile "write" ["Write running configuration to memory, network, or terminal"]

/-- Command `copy running-config startup-config`. -/
def copyRunningConfig : CommandSpec :=
  command .writeFile "copy running-config startup-config"
    ["Copy configuration", "Copy running config to... ",
      "Copy running config to startup config (same as write file)"]

/-- Command `show startup-config`. -/
def showStartupConfig : CommandSpec :=
  command .showStartup "show startup-config"
    ["Show running system information", "Contents of startup configuration"]

/-- Command `hostname WORD`. -/
def hostname : CommandSpec :=
  command .hostname "hostname WORD" ["Set system's network name", "This system's network name"]

/-- Command `no hostname [HOSTNAME]`. -/
def noHostname : CommandSpec :=
  command .noHostname "no hostname [HOSTNAME]"
    ["Negate a command or set its defaults", "Reset system's network name",
      "Host name of this router"]

/-- Command `password (8|) WORD`. -/
def storedPassword : CommandSpec :=
  command .password "password (8|) WORD"
    ["Assign the terminal connection password", "Specifies a HIDDEN password will follow",
      "dummy string ", "The HIDDEN line password string"]

/-- Command `password LINE`. -/
def password : CommandSpec :=
  command .password "password LINE"
    ["Assign the terminal connection password", "The UNENCRYPTED (cleartext) line password"]

/-- Command `enable password (8|) WORD`. -/
def storedEnablePassword : CommandSpec :=
  command .enablePassword "enable password (8|) WORD"
    ["Modify enable password parameters", "Assign the privileged level password",
      "Specifies a HIDDEN password will follow", "dummy string ",
      "The HIDDEN 'enable' password string"]

/-- Command `enable password LINE`. -/
def enablePassword : CommandSpec :=
  command .enablePassword "enable password LINE"
    ["Modify enable password parameters", "Assign the privileged level password",
      "The UNENCRYPTED (cleartext) 'enable' password"]

/-- Command `no enable password`. -/
def noEnablePassword : CommandSpec :=
  command .noEnablePassword "no enable password"
    ["Negate a command or set its defaults", "Modify enable password parameters",
      "Assign the privileged level password"]

/-- Command `service password-encryption`. -/
def passwordEncryption : CommandSpec :=
  command .encryption "service password-encryption"
    ["Set up miscellaneous service", "Enable encrypted passwords"]

/-- Command `no service password-encryption`. -/
def noPasswordEncryption : CommandSpec :=
  command .noEncryption "no service password-encryption"
    ["Negate a command or set its defaults", "Set up miscellaneous service",
      "Enable encrypted passwords"]

/-- Command `banner motd default`. -/
def bannerDefault : CommandSpec :=
  command .bannerDefault "banner motd default"
    ["Set banner string", "Strings for motd", "Default string"]

/-- Command `banner motd file [FILE]`. -/
def bannerFile : CommandSpec :=
  command .bannerFile "banner motd file [FILE]"
    ["Set banner", "Banner for motd", "Banner from a file", "Filename"]

/-- Command `no banner motd`. -/
def noBanner : CommandSpec :=
  command .noBanner "no banner motd"
    ["Negate a command or set its defaults", "Set banner string", "Strings for motd"]

/-- Command `service terminal-length <0-512>`. -/
def serviceTerminalLength : CommandSpec :=
  command .serviceTerminalLength "service terminal-length <0-512>"
    ["Set up miscellaneous service", "System wide terminal length configuration",
      "Number of lines of VTY (0 means no line control)"]

/-- Command `no service terminal-length [<0-512>]`. -/
def noServiceTerminalLength : CommandSpec :=
  command .noServiceTerminalLength "no service terminal-length [<0-512>]"
    ["Negate a command or set its defaults", "Set up miscellaneous service",
      "System wide terminal length configuration",
      "Number of lines of VTY (0 means no line control)"]

/-- Command `show logging`. -/
def showLogging : CommandSpec :=
  command .showLogging "show logging"
    ["Show running system information", "Show current logging configuration"]

/-- Command `logmsg LEVEL .MESSAGE`. -/
def logMessage : CommandSpec :=
  command .logMessage ("logmsg " ++ severityChoice ++ " .MESSAGE")
    (["Send a message to enabled logging destinations"] ++ severityDocs ++ ["The message to send"])

/-- Command `log stdout`. -/
def logStdout : CommandSpec :=
  command .logStdout "log stdout" ["Logging control", "Set stdout logging level"]

/-- Command `log stdout LEVEL`. -/
def logStdoutLevel : CommandSpec :=
  command .logStdout ("log stdout " ++ severityChoice)
    (["Logging control", "Set stdout logging level"] ++ severityDocs)

/-- Command `no log stdout [LEVEL]`. -/
def noLogStdout : CommandSpec :=
  command .noLogStdout "no log stdout [LEVEL]"
    ["Negate a command or set its defaults", "Logging control", "Cancel logging to stdout",
      "Logging level"]

/-- Command `log file FILENAME`. -/
def logFile : CommandSpec :=
  command .logFile "log file FILENAME" ["Logging control", "Logging to file", "Logging filename"]

/-- Command `log file FILENAME LEVEL`. -/
def logFileLevel : CommandSpec :=
  command .logFile ("log file FILENAME " ++ severityChoice)
    (["Logging control", "Logging to file", "Logging filename"] ++ severityDocs)

/-- Command `no log file [FILENAME]`. -/
def noLogFile : CommandSpec :=
  command .noLogFile "no log file [FILENAME]"
    ["Negate a command or set its defaults", "Logging control", "Cancel logging to file",
      "Logging file name"]

/-- Command `no log file FILENAME LEVEL`. -/
def noLogFileLevel : CommandSpec :=
  command .noLogFile "no log file FILENAME LEVEL"
    ["Negate a command or set its defaults", "Logging control", "Cancel logging to file",
      "Logging file name", "Logging level"]

/-- Command `log trap LEVEL`. -/
def logTrap : CommandSpec :=
  { command .logTrap ("log trap " ++ severityChoice)
      (["Logging control", "(Deprecated) Set logging level and default for all destinations"] ++
        severityDocs) with
    visibility := .deprecated }

/-- Command `no log trap [LEVEL]`. -/
def noLogTrap : CommandSpec :=
  { command .noLogTrap "no log trap [LEVEL]"
      ["Negate a command or set its defaults", "Logging control",
        "Permit all logging information", "Logging level"] with
    visibility := .deprecated }

/-- Command `log record-priority`. -/
def recordPriority : CommandSpec :=
  command .recordPriority "log record-priority"
    ["Logging control", "Log the priority of the message within the message"]

/-- Command `no log record-priority`. -/
def noRecordPriority : CommandSpec :=
  command .noRecordPriority "no log record-priority"
    ["Negate a command or set its defaults", "Logging control",
      "Do not log the priority of the message within the message"]

-- ============================================================================
-- Installation
-- ============================================================================

/-- Commands at one node, in order. -/
def commandsAt (node : NodeId) (specs : List CommandSpec) : List Registry.Installation :=
  specs.map (.command node)

/-- What every level of a configuration has: help, lists and the running
    configuration. -/
def defaults (node : NodeId) : List Registry.Installation :=
  commandsAt node
    [help, list, writeTerminal, writeFile, writeMemory, write, showRunningConfig]

/-- The defaults and the ways out; `end` is for configuration nodes. -/
def interactiveDefaults (node : NodeId) : List Registry.Installation :=
  defaults node ++
    commandsAt node (if NodeId.config.value ≤ node.value then [exit, leave] else [exit])

/-- The five nodes that every session settles on. -/
def canonicalNodes : List Registry.Installation :=
  [.node { id := .auth, prompt := "Password: ", name := some "auth" },
    .node { id := .view, prompt := "%s> ", name := some "view" },
    .node { id := .authEnable, prompt := "Password: ", name := some "auth-enable" },
    .node { id := .enable, prompt := "%s# ", name := some "enable" },
    .node
      { id := .config
        prompt := "%s(config)# "
        name := some "config"
        writesConfig := true
        isTopLevel := true }]

/-- The standard set for sessions at a terminal. -/
def terminalSet : List Registry.Installation :=
  canonicalNodes ++
    commandsAt .view
      [showVersion, list, exit, help, enable, terminalLength, terminalNoLength, echo,
        showLogging] ++
    interactiveDefaults .enable ++
    commandsAt .enable
      [disable, configureTerminal, copyRunningConfig, showStartupConfig, showVersion,
        terminalLength, terminalNoLength, echo, showLogging, logMessage] ++
    interactiveDefaults .config ++
    commandsAt .config
      [hostname, noHostname, storedPassword, password, storedEnablePassword,
        enablePassword, noEnablePassword, passwordEncryption, noPasswordEncryption,
        bannerDefault, bannerFile, noBanner, serviceTerminalLength,
        noServiceTerminalLength, logMessage, logStdout, logStdoutLevel, noLogStdout,
        logFile, logFileLevel, noLogFile, noLogFileLevel, logTrap, noLogTrap,
        recordPriority, noRecordPriority]

/-- The standard set where no session sits at a terminal. -/
def plainSet : List Registry.Installation :=
  canonicalNodes ++
    commandsAt .view [showVersion] ++
    commandsAt .enable [showStartupConfig, showVersion] ++
    commandsAt .config [hostname, noHostname]

/-- The standard set, with or without a terminal. -/
def standard (terminal : Bool) : List Registry.Installation :=
  if terminal then terminalSet else plainSet

end RouterCli.Standard
