import RouterCli.Console.Execute
import RouterCli.Shell.Decoder
import RouterCli.Shell.History
import RouterCli.Shell.Terminal

/-!
  RouterCli.Shell.Basic

  The shell puts a terminal before a console: it keeps the line being edited,
  the decoder of the terminal's characters and the history. What it does stops
  where the terminal fails; what was done until then stays done.
-/

namespace RouterCli

/-- Where a shell is in its life. -/
inductive ShellPhase where
  /-- Not started; characters are ignored. -/
  | inactive
  | active
  | closed
deriving DecidableEq, Repr

/-- A shell. -/
structure Shell (σ κ φ : Type) where
  console : Console σ κ φ
  phase : ShellPhase := .inactive
  buffer : String := ""
  decoder : Decoder := {}
  history : History
  terminal : Terminal := {}

/-- Why the shell stopped in the middle of a character's work. -/
inductive ShellFailure where
  | terminal
  /-- The line would have been cut within a character. -/
  | splitCharacter
deriving DecidableEq, Repr

/-- Work of the shell: it changes the shell and may fail halfway. -/
abbrev ShellWork (σ κ φ : Type) := ExceptT ShellFailure (StateM (Shell σ κ φ))

namespace Shell

variable {σ κ φ : Type}

/-- A shell that was not started yet. -/
def new (limits : Limits) (console : Console σ κ φ) (terminal : Terminal) :
    Shell σ κ φ where
  console := { console with session := { node := .view } }
  history := History.withLimit Limits.historySize Limits.bufferSize limits.history
  terminal

/-- At a password prompt the line is read unseen and without help. -/
def atPasswordPrompt (sh : Shell σ κ φ) : Bool :=
  sh.console.session.node == .auth || sh.console.session.node == .authEnable

/-- Change the console. -/
def mapConsole (sh : Shell σ κ φ) (f : Console σ κ φ → Console σ κ φ) : Shell σ κ φ :=
  { sh with console := f sh.console }

/-- Change the session. -/
def mapSession (sh : Shell σ κ φ) (f : Session κ → Session κ) : Shell σ κ φ :=
  sh.mapConsole (·.mapSession f)

/-- A text longer by another one, where that fits into a line. -/
def extend? (limits : Limits) (buffer text : String) : Option String :=
  let size := buffer.utf8ByteSize + text.utf8ByteSize
  if size ≤ limits.input && size ≤ Limits.bufferSize then some (buffer ++ text) else none

/-- The line before the word under the cursor. A line is cut one byte behind
    its last blank, so behind a blank of several bytes it cannot be cut. -/
def beforeWord? (buffer : String) : Option String :=
  let word := buffer.toList.reverse.takeWhile (!Text.isBlank ·)
  let before := buffer.toList.reverse.dropWhile (!Text.isBlank ·)
  if word.isEmpty || before.head?.all (·.utf8Size = 1) then
    some (String.ofList before.reverse)
  else none

-- ============================================================================
-- Writing
-- ============================================================================

/-- Write to the terminal. -/
def writeWith (write : Terminal → Bool × Terminal) : ShellWork σ κ φ Unit := do
  let sh ← getThe (Shell σ κ φ)
  let (done, terminal) := write sh.terminal
  set { sh with terminal }
  unless done do throw .terminal

/-- Write a text as it is. -/
def write (s : String) : ShellWork σ κ φ Unit :=
  writeWith (·.write s)

/-- Write one character. -/
def put (c : Char) : ShellWork σ κ φ Unit :=
  writeWith (·.put c)

/-- Write a text with the terminal's line breaks. -/
def writeText (s : String) : ShellWork σ κ φ Unit :=
  writeWith (·.writeText s)

/-- Write a line break. -/
def writeBreak : ShellWork σ κ φ Unit :=
  write Terminal.lineBreak

/-- The character that refuses input. -/
def bell : Char := '\x07'

/-- Write the prompt of the session's node. -/
def writePrompt (p : Program σ κ) : ShellWork σ κ φ Unit := do
  write (p.prompt (← getThe (Shell σ κ φ)).console)

/-- Write the prompt and the line being edited. -/
def writePromptAndLine (p : Program σ κ) : ShellWork σ κ φ Unit := do
  writePrompt p
  let sh ← getThe (Shell σ κ φ)
  unless sh.atPasswordPrompt do write sh.buffer

/-- Clear the line on the screen and write it again. -/
def redraw (p : Program σ κ) : ShellWork σ κ φ Unit := do
  write "\r\x1b[K"
  writePromptAndLine p

end Shell

end RouterCli
