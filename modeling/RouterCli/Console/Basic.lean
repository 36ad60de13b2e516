import RouterCli.Application
import RouterCli.Host
import RouterCli.Registry

/-!
  RouterCli.Console.Basic

  A program is what stays fixed while a command line runs: the registry, the
  application and the limits. A console is what changes: the host's settings,
  the state of the application, the world and one session.
-/

namespace RouterCli

/-- The limits of a command line. -/
structure Limits where
  /-- The longest line, in bytes. -/
  input : Nat
  history : Nat
  /-- One more than the most arguments. -/
  arguments : Nat
  /-- How many wrong passwords end a prompt. -/
  authFailures : Nat
deriving DecidableEq, Repr

namespace Limits

/-- The longest line that any limits may ask for, in bytes. -/
def bufferSize : Nat := 512

/-- The longest history that any limits may ask for. -/
def historySize : Nat := 20

/-- The limits of a router. -/
def standard : Limits := ⟨bufferSize, historySize, 256, 3⟩

/-- The limits of a small console. -/
def minimal : Limits := ⟨128, 5, 32, 3⟩

end Limits

/-- What stays fixed while a command line runs. -/
structure Program (σ κ : Type) where
  registry : Registry
  application : Application σ κ
  limits : Limits := .standard

/-- What changes while a command line runs. -/
structure Console (σ κ φ : Type) where
  host : Host
  app : σ
  world : World φ
  session : Session κ

namespace Console

variable {σ κ φ : Type}

/-- Change the session. -/
def mapSession (c : Console σ κ φ) (f : Session κ → Session κ) : Console σ κ φ :=
  { c with session := f c.session }

/-- Change the settings of the host. -/
def mapHost (c : Console σ κ φ) (f : Host → Host) : Console σ κ φ :=
  { c with host := f c.host }

/-- Print a line into the session. -/
def printLine (c : Console σ κ φ) (text : String) : Console σ κ φ :=
  c.mapSession (·.printLine text)

/-- Make a log record. -/
def log [FileStore φ] (c : Console σ κ φ) (level : LogLevel) (text : String) :
    Console σ κ φ :=
  { c with world := c.world.log level text }

end Console

end RouterCli
