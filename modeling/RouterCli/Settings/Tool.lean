import RouterCli.Settings.HostSettings

/-!
  RouterCli.Settings.Tool

  The command line tool that turns a settings file into configuration text: it
  takes the path of the file and prints the text, ready to be pasted into a
  configuration.
-/

namespace RouterCli.SettingsTool

/-- What a run of the tool comes to. -/
structure Report where
  code : Nat
  stdout : String := ""
  stderr : String := ""
deriving DecidableEq, Repr

/-- The name of the tool. -/
def name : String := "router-passwd"

/-- Run the tool with its arguments. -/
def run {φ : Type} [FileStore φ] (args : List String) (w : World φ) : Report :=
  match args with
  | [path] =>
    match (HostSettings.configOfFile path w).1 with
    | .ok text => { code := 0, stdout := text }
    | .error e => { code := 1, stderr := path ++ ": " ++ e.message ++ "\n" }
  | _ => { code := 2, stderr := "Usage: " ++ name ++ " <settings.toml>\n" }

end RouterCli.SettingsTool
