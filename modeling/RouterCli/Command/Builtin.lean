/-
  RouterCli.Command.Builtin

  The commands that the library carries out by itself, and the keys they are
  listed under. Several patterns may share one of them.
-/

namespace RouterCli

/-- A command of the library. -/
inductive Builtin where
  | showVersion
  | list
  | help
  /-- One level down, or the end of the session. -/
  | exit
  /-- Out of the configuration. -/
  | leave
  | enable
  | disable
  | configure
  | terminalLength
  | noTerminalLength
  | echo
  | writeTerminal
  | writeFile
  | showStartup
  | hostname
  | noHostname
  | password
  | enablePassword
  | noEnablePassword
  | encryption
  | noEncryption
  | bannerDefault
  | bannerFile
  | noBanner
  | serviceTerminalLength
  | noServiceTerminalLength
  | showLogging
  | logMessage
  | logStdout
  | noLogStdout
  | logFile
  | noLogFile
  | logTrap
  | noLogTrap
  | recordPriority
  | noRecordPriority
deriving DecidableEq, Repr

namespace Builtin

/-- The key a command is listed under. -/
def key : Builtin → String
  | showVersion => "show_version"
  | list => "config_list"
  | help => "config_help"
  | exit => "config_exit"
  | leave => "config_end"
  | enable => "config_enable"
  | disable => "config_disable"
  | configure => "config_terminal"
  | terminalLength => "config_terminal_length"
  | noTerminalLength => "config_terminal_no_length"
  | echo => "echo"
  | writeTerminal => "config_write_terminal"
  | writeFile => "config_write_file"
  | showStartup => "show_startup_config"
  | hostname => "hostname"
  | noHostname => "no_hostname"
  | password => "password"
  | enablePassword => "enable_password"
  | noEnablePassword => "no_enable_password"
  | encryption => "service_password_encryption"
  | noEncryption => "no_service_password_encryption"
  | bannerDefault => "banner_motd_default"
  | bannerFile => "banner_motd_file"
  | noBanner => "no_banner_motd"
  | serviceTerminalLength => "service_terminal_length"
  | noServiceTerminalLength => "no_service_terminal_length"
  | showLogging => "show_logging"
  | logMessage => "logmsg"
  | logStdout => "log_stdout"
  | noLogStdout => "no_log_stdout"
  | logFile => "log_file"
  | noLogFile => "no_log_file"
  | logTrap => "log_trap"
  | noLogTrap => "no_log_trap"
  | recordPriority => "log_record_priority"
  | noRecordPriority => "no_log_record_priority"

end Builtin

end RouterCli
