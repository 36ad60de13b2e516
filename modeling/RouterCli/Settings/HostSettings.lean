import RouterCli.Host
import RouterCli.Toml.Document

/-!
  RouterCli.Settings.HostSettings

  Settings of the host as an administrator writes them into a file, and the
  configuration text they come to. Passwords are written as they are and come
  out encrypted.
-/

namespace RouterCli

/-- What a settings file may say about the host. -/
structure HostSettings where
  hostname : Option String := none
  password : Option String := none
  enablePassword : Option String := none
  terminalLength : Option UInt32 := none
deriving DecidableEq, Repr

/-- Why settings come to no configuration. -/
inductive SettingsError where
  | unreadable (cause : FileError)
  | malformed (defect : Toml.Defect)
  /-- The table of the host is missing. -/
  | noHost
  /-- The table has a field that is none. -/
  | unknownField (key : String)
  /-- A field has a value of another kind. -/
  | wrongKind (key : String)
  /-- A number has no value, or too large a one. -/
  | unsound (key : String)
  | hostnameStart
  | passwordStart
  | encryption (cause : EncryptionError)
deriving DecidableEq, Repr

namespace SettingsError

/-- The words for an error. -/
def message : SettingsError → String
  | unreadable cause => cause.message
  | malformed defect => defect.message
  | noHost => "the table 'host' is missing"
  | unknownField key => "unknown field '" ++ key ++ "'"
  | wrongKind key => "field '" ++ key ++ "' has a value of the wrong kind"
  | unsound key => "a number of '" ++ key ++ "' has no value that fits"
  | hostnameStart => "hostname must start with a letter"
  | passwordStart => "passwords must start with a letter or digit"
  | encryption cause => cause.message

end SettingsError

namespace HostSettings

-- ============================================================================
-- Reading
-- ============================================================================

/-- A field that holds a string. -/
def textField (key : String) : Toml.Value → Except SettingsError String
  | .text s => .ok s
  | _ => .error (.wrongKind key)

/-- A field that holds a number of 32 bits. -/
def numberField (key : String) : Toml.Value → Except SettingsError UInt32
  | .number (.whole (some n)) =>
    if 0 ≤ n ∧ n < UInt32.size then .ok n.toNat.toUInt32 else .error (.wrongKind key)
  | _ => .error (.wrongKind key)

/-- Take in one entry of the table. -/
def addEntry (s : HostSettings) (entry : String × Toml.Value) :
    Except SettingsError HostSettings := do
  let (key, value) := entry
  match key with
  | "hostname" => return { s with hostname := some (← textField key value) }
  | "password" => return { s with password := some (← textField key value) }
  | "enable_password" => return { s with enablePassword := some (← textField key value) }
  | "terminal_length" => return { s with terminalLength := some (← numberField key value) }
  | _ => throw (.unknownField key)

/-- The fields in the order in which an array gives them. -/
def fieldNames : List String :=
  ["hostname", "password", "enable_password", "terminal_length"]

/-- The settings in the value of the host. They stand in a table, or in an array
    that gives every field and may go on after them. -/
def ofValue : Toml.Value → Except SettingsError HostSettings
  | .table _ entries => entries.foldlM addEntry {}
  | .array _ items =>
    if items.length < fieldNames.length then .error (.wrongKind "host")
    else (fieldNames.zip items).foldlM addEntry {}
  | _ => .error (.wrongKind "host")

/-- The settings in a document. What else it holds is none of the host's
    business, but its numbers have to be sound. -/
def ofDocument (d : Toml.Entries) : Except SettingsError HostSettings :=
  match d.find? fun (key, v) => key != "host" && !v.isSound with
  | some (key, _) => .error (.unsound key)
  | none =>
    match d.lookup "host" with
    | none => .error .noHost
    | some v => ofValue v

/-- The settings in the text of a file. -/
def ofString (s : String) : Except SettingsError HostSettings :=
  match Toml.readDocument s with
  | .ok d => ofDocument d
  | .error defect => .error (.malformed defect)

-- ============================================================================
-- The host
-- ============================================================================

variable {φ : Type}

/-- A password, encrypted under a salt of its own. -/
def secretOf (password : Option String) (w : World φ) :
    Except SettingsError (Option Secret) × World φ :=
  match password with
  | none => (.ok none, w)
  | some text =>
    if text.toList.head?.any Char.isAlphanum then
      let (result, w) := (Secret.plain text).encrypt w
      ((result.map some).mapError .encryption, w)
    else (.error .passwordStart, w)

/-- The host with these settings. The hostname is looked at first, then the
    login password, then the enable password. -/
def toHost (s : HostSettings) (w : World φ) : Except SettingsError Host × World φ :=
  if s.hostname.any fun name => !name.toList.head?.any Char.isAlpha then
    (.error .hostnameStart, w)
  else
    match secretOf s.password w with
    | (.error e, w) => (.error e, w)
    | (.ok password, w) =>
      match secretOf s.enablePassword w with
      | (.error e, w) => (.error e, w)
      | (.ok enable, w) =>
        (.ok { name := s.hostname, password, enable,
               lines := s.terminalLength.map (·.toNat) }, w)

/-- The configuration text that the settings in a file come to. -/
def configOfFile [FileStore φ] (path : String) (w : World φ) :
    Except SettingsError String × World φ :=
  match FileStore.readText w.files path with
  | .error cause => (.error (.unreadable cause), w)
  | .ok text =>
    match ofString text with
    | .error e => (.error e, w)
    | .ok settings =>
      let (host, w) := settings.toHost w
      (host.map (·.configText), w)

end HostSettings

end RouterCli
