import RouterCli.World

/-!
  RouterCli.Host

  The settings of the host: its name, its passwords, the length of screens, the
  banner, the configuration file and the log. `configLines` are the commands
  that bring them back.
-/

namespace RouterCli

-- ============================================================================
-- Secrets
-- ============================================================================

/-- A password in the form it is kept in. -/
inductive Secret where
  | plain (text : String)
  /-- As a salt and a hash. -/
  | encrypted (stored : String)
deriving DecidableEq, Repr

namespace Secret

/-- The input is this password. -/
def accepts (s : Secret) (input : String) : Bool :=
  match s with
  | plain text => text == input
  | encrypted stored => StoredPassword.verify input stored

/-- A password kept as typed. -/
def isPlain : Secret → Bool
  | plain _ => true
  | encrypted _ => false

/-- The secret with a salt and a hash in the place of what was typed. -/
def encrypt {φ : Type} (s : Secret) (w : World φ) :
    Except EncryptionError Secret × World φ :=
  match s with
  | plain text =>
    let (stored, w) := w.encrypt text
    (stored.map .encrypted, w)
  | encrypted _ => (.ok s, w)

/-- The command that brings a secret back. -/
def configLine (keyword : String) : Secret → String
  | plain text => keyword ++ " " ++ text
  | encrypted stored => keyword ++ " 8 " ++ stored

end Secret

-- ============================================================================
-- The host
-- ============================================================================

/-- The banner of a session. -/
inductive Banner where
  /-- The one that comes with the program, which is empty. -/
  | default
  | file (path : String)
  | none
deriving DecidableEq, Repr, Inhabited

/-- The settings of the host. -/
structure Host where
  name : Option String := .none
  password : Option Secret := .none
  enable : Option Secret := .none
  encrypt : Bool := false
  /-- The screen length of new sessions. -/
  lines : Option Nat := .none
  banner : Banner := .default
  /-- The file the configuration is saved to. -/
  configFile : Option String := .none
  logging : LogSettings := {}
deriving DecidableEq, Repr, Inhabited

namespace Host

/-- A session has to log in. -/
def requiresLogin (h : Host) : Bool :=
  h.password.isSome

/-- The privileged commands ask for a password. -/
def requiresEnablePassword (h : Host) : Bool :=
  h.enable.isSome

/-- The input is the login password. -/
def acceptsLogin (h : Host) (input : String) : Bool :=
  h.password.any (·.accepts input)

/-- The input is the enable password. -/
def acceptsEnable (h : Host) (input : String) : Bool :=
  h.enable.any (·.accepts input)

variable {φ : Type}

/-- The secret for a typed password, encrypted where passwords are. -/
def secretFor (h : Host) (text : String) (w : World φ) :
    Except EncryptionError Secret × World φ :=
  if h.encrypt then (Secret.plain text).encrypt w else (.ok (.plain text), w)

/-- Encrypt a secret, if there is one. -/
def encryptSecret (s : Option Secret) (w : World φ) :
    Except EncryptionError (Option Secret) × World φ :=
  match s with
  | .none => (.ok .none, w)
  | some secret =>
    let (result, w) := secret.encrypt w
    (result.map some, w)

/-- Keep passwords encrypted from now on, those at hand included. Without salts
    for all of them nothing changes. -/
def enableEncryption (h : Host) (w : World φ) : Except EncryptionError Host × World φ :=
  if h.encrypt then (.ok h, w)
  else
    match encryptSecret h.password w with
    | (.error e, w) => (.error e, w)
    | (.ok password, w) =>
      match encryptSecret h.enable w with
      | (.error e, w) => (.error e, w)
      | (.ok enable, w) => (.ok { h with password, enable, encrypt := true }, w)

/-- Keep passwords as typed from now on. Encrypted ones cannot be had back and
    are dropped. -/
def disableEncryption (h : Host) : Host :=
  if h.encrypt then
    { h with
      encrypt := false
      password := h.password.filter (·.isPlain)
      enable := h.enable.filter (·.isPlain) }
  else h

/-- The text of the banner, if there is one. -/
def bannerText [FileStore φ] (h : Host) (files : φ) : Option String :=
  match h.banner with
  | .default | .none => .none
  | .file path => (FileStore.readText files path).toOption

/-- The commands that bring these settings back. -/
def configLines (h : Host) : List String :=
  (h.name.map ("hostname " ++ ·)).toList ++
  (h.password.map (Secret.configLine "password")).toList ++
  (h.enable.map (Secret.configLine "enable password")).toList ++
  h.logging.configLines ++
  (if h.encrypt then ["service password-encryption"] else []) ++
  (h.lines.map fun n => s!"service terminal-length {n}").toList ++
  (match h.banner with
    | .file path => ["banner motd file " ++ path]
    | .none => ["no banner motd"]
    | .default => [])

/-- The settings as configuration text. -/
def configText (h : Host) : String :=
  joinLines h.configLines

end Host

end RouterCli
