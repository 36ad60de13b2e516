import RouterCli.Shell.Basic

/-!
  RouterCli.Shell.Process

  What the shell does with each character of the terminal: editing the line,
  running it, checking passwords, walking the history, completing words and
  listing help.
-/

namespace RouterCli.Shell

variable {σ κ φ : Type} [FileStore φ]

-- ============================================================================
-- Start and end
-- ============================================================================

/-- The node where a session starts. -/
def startNode (host : Host) : NodeId :=
  if host.requiresLogin then .auth else .view

/-- Start a session: show the banner and the first prompt. -/
def activate (p : Program σ κ) : ShellWork σ κ φ Unit := do
  modifyThe (Shell σ κ φ) fun sh =>
    let host := sh.console.host
    { sh with
      console := { sh.console with session := { node := startNode host, lines := host.lines } }
      buffer := ""
      decoder := {}
      history := sh.history.resetPosition
      phase := .active }
  let c := (← getThe (Shell σ κ φ)).console
  match c.host.bannerText c.world.files with
  | none => pure ()
  | some banner =>
    writeText banner
    unless Text.endsInLineFeed banner do writeBreak
  writePrompt p

/-- Stop: characters are ignored until the next start. -/
def deactivate (sh : Shell σ κ φ) : Shell σ κ φ :=
  { sh with phase := .inactive, buffer := "", decoder := {} }

/-- Close the shell if the session is to end, and else write the prompt. -/
def closeOrPrompt (p : Program σ κ) : ShellWork σ κ φ Unit := do
  let sh ← getThe (Shell σ κ φ)
  if sh.console.session.closing then
    set { sh with console := sh.console.log .info "session closed", phase := .closed }
  else writePrompt p

-- ============================================================================
-- Editing
-- ============================================================================

/-- Empty the line. -/
def clearBuffer (sh : Shell σ κ φ) : Shell σ κ φ :=
  { sh with buffer := "" }

/-- Take a character into the line, or refuse it. -/
def typeChar (p : Program σ κ) (c : Char) : ShellWork σ κ φ Unit := do
  let sh ← getThe (Shell σ κ φ)
  match extend? p.limits sh.buffer (String.singleton c) with
  | none => put bell
  | some buffer =>
    set { sh with buffer }
    unless sh.atPasswordPrompt do put c

/-- Take the last character of the line back. -/
def backspace : ShellWork σ κ φ Unit := do
  let sh ← getThe (Shell σ κ φ)
  let cs := sh.buffer.toList
  unless cs.isEmpty do
    set { sh with buffer := String.ofList cs.dropLast }
    unless sh.atPasswordPrompt do write "\x08 \x08"

/-- Empty the line, on the screen too. -/
def killLine (p : Program σ κ) : ShellWork σ κ φ Unit := do
  modifyThe (Shell σ κ φ) clearBuffer
  redraw p

/-- Give up the line for a new one. -/
def interrupt (p : Program σ κ) : ShellWork σ κ φ Unit := do
  modifyThe (Shell σ κ φ) fun sh =>
    { sh with buffer := "", history := sh.history.resetPosition }
  writeBreak
  writePrompt p

-- ============================================================================
-- Passwords
-- ============================================================================

/-- A password was accepted: the session moves on. -/
def acceptPassword (sh : Shell σ κ φ) : Shell σ κ φ :=
  sh.mapSession fun s =>
    s.resetAuthFailures.setNode (if s.node = .auth then .view else .enable)

/-- A password was not accepted. The last of too many ends the login, or the
    way to the privileged commands. -/
def rejectPassword (p : Program σ κ) : ShellWork σ κ φ Unit := do
  modifyThe (Shell σ κ φ) (·.mapSession (·.recordAuthFailure))
  let s := (← getThe (Shell σ κ φ)).console.session
  if p.limits.authFailures ≤ s.authFailures then
    if s.node = .auth then
      modifyThe (Shell σ κ φ) (·.mapConsole (·.log .info "too many failed logins"))
      write "% Bad passwords, too many failures!\r\n"
      modifyThe (Shell σ κ φ) (·.mapSession (·.close))
    else
      write "% Bad enable passwords, too many failures!\r\n"
      modifyThe (Shell σ κ φ) (·.mapSession fun s => s.resetAuthFailures.setNode .view)

/-- The host accepts an input at a password prompt. -/
def acceptsAt (host : Host) (node : NodeId) (input : String) : Bool :=
  if node = .auth then host.acceptsLogin input else host.acceptsEnable input

/-- Check a line entered at a password prompt. -/
def checkPassword (p : Program σ κ) (input : String) : ShellWork σ κ φ Unit := do
  let sh ← getThe (Shell σ κ φ)
  if acceptsAt sh.console.host sh.console.session.node input then set sh.acceptPassword
  else rejectPassword p

-- ============================================================================
-- Lines
-- ============================================================================

/-- Run a line and write what it printed, and what was wrong with it. -/
def runLine (p : Program σ κ) (input : String) : ShellWork σ κ φ Unit := do
  let sh ← getThe (Shell σ κ φ)
  let (outcome, c) := p.execute input sh.console
  let (output, session) := c.session.takeOutput
  set { sh with history := sh.history.add input, console := { c with session } }
  writeText output
  unless output.isEmpty || Text.endsInLineFeed output do writeBreak
  match outcome with
  | .ok _ => pure ()
  | .error e =>
    match e.complaint? with
    | none => pure ()
    | some complaint =>
      write complaint
      writeBreak

/-- The line is finished. -/
def enter (p : Program σ κ) : ShellWork σ κ φ Unit := do
  let sh ← getThe (Shell σ κ φ)
  set sh.clearBuffer
  writeBreak
  if sh.atPasswordPrompt then checkPassword p sh.buffer else runLine p sh.buffer
  closeOrPrompt p

/-- Leave the configuration. -/
def suspend (p : Program σ κ) : ShellWork σ κ φ Unit := do
  unless (← getThe (Shell σ κ φ)).atPasswordPrompt do
    modifyThe (Shell σ κ φ) fun sh =>
      { sh with buffer := "", history := sh.history.resetPosition }
    writeBreak
    modifyThe (Shell σ κ φ) (·.mapConsole p.leaveConfig)
    writePrompt p

/-- On an empty line, one level down or the end of the session. -/
def endOfInput (p : Program σ κ) : ShellWork σ κ φ Unit := do
  if (← getThe (Shell σ κ φ)).buffer.isEmpty then
    writeBreak
    modifyThe (Shell σ κ φ) (·.mapConsole p.exit)
    closeOrPrompt p

-- ============================================================================
-- History
-- ============================================================================

/-- Put the older line in the place of the line. -/
def recallPrevious (p : Program σ κ) : ShellWork σ κ φ Unit := do
  let sh ← getThe (Shell σ κ φ)
  unless sh.atPasswordPrompt do
    match sh.history.previous with
    | (none, _) => pure ()
    | (some buffer, history) =>
      set { sh with buffer, history }
      redraw p

/-- Put the newer line in the place of the line, or an empty one. -/
def recallNext (p : Program σ κ) : ShellWork σ κ φ Unit := do
  let sh ← getThe (Shell σ κ φ)
  unless sh.atPasswordPrompt || !sh.history.isNavigating do
    let (line, history) := sh.history.next
    set { sh with buffer := line.getD "", history }
    redraw p

-- ============================================================================
-- Completion and help
-- ============================================================================

/-- Put a text in the place of the word under the cursor, or refuse it. -/
def replaceWord (p : Program σ κ) (text : String) : ShellWork σ κ φ Unit := do
  let sh ← getThe (Shell σ κ φ)
  match beforeWord? sh.buffer with
  | none => throw .splitCharacter
  | some before =>
    match extend? p.limits before text with
    | none => put bell
    | some buffer =>
      set { sh with buffer }
      redraw p

/-- Keywords in columns, six to a row. -/
def columns (keywords : List String) : String :=
  let cell := fun (entry : String × Nat) =>
    let lead := if entry.2 ≠ 0 && entry.2 % 6 = 0 then Terminal.lineBreak else ""
    lead ++ Text.padRight 10 entry.1 ++ " "
  String.join (keywords.zipIdx.map cell) ++ Terminal.lineBreak

/-- What a terminal shows where there is no help. -/
def helpComplaint : CommandError → String
  | .ambiguous => "% Ambiguous command."
  | _ => "% There is no matched command."

/-- Complete the word under the cursor. -/
def completeWord (p : Program σ κ) : ShellWork σ κ φ Unit := do
  let sh ← getThe (Shell σ κ φ)
  unless sh.atPasswordPrompt do
    match p.complete sh.console.session.node sh.buffer with
    | .ok (.full keyword) => replaceWord p (keyword ++ " ")
    | .ok (.shared start) => replaceWord p start
    | .ok (.choices keywords) =>
      writeBreak
      write (columns keywords)
      writePromptAndLine p
    | .error .nothingToDo =>
      writeBreak
      writePromptAndLine p
    | .error e =>
      writeBreak
      write (helpComplaint e)
      writeBreak
      writePromptAndLine p

/-- The text of a help entry; a free text loses its dot. -/
def shownText (text : String) : String :=
  match text.toList with
  | '.' :: rest => String.ofList rest
  | _ => text

/-- One line of help, with the texts in a column of their own. -/
def helpLine (width : Nat) (item : HelpItem) : String :=
  let text := shownText item.text
  if text.isEmpty then ""
  else if item.doc.isEmpty then "  " ++ text ++ Terminal.lineBreak
  else "  " ++ Text.padRight width text ++ "  " ++ item.doc ++ Terminal.lineBreak

/-- Help in lines. The column is as wide as the longest text has bytes. -/
def helpTable (items : List HelpItem) : String :=
  let width := (items.map fun i => (shownText i.text).utf8ByteSize).foldl max 0
  String.join (items.map (helpLine width))

/-- List what may follow, and write the line again. -/
def describeLine (p : Program σ κ) : ShellWork σ κ φ Unit := do
  let sh ← getThe (Shell σ κ φ)
  let help := p.describe sh.console.session.node sh.buffer
  writeBreak
  match help with
  | .ok items => write (helpTable items)
  | .error e => write (helpComplaint e ++ Terminal.lineBreak)
  writePromptAndLine p

/-- The question mark: help, or at a password prompt a character like others. -/
def help (p : Program σ κ) : ShellWork σ κ φ Unit := do
  if (← getThe (Shell σ κ φ)).atPasswordPrompt then typeChar p '?' else describeLine p

-- ============================================================================
-- Characters
-- ============================================================================

/-- Carry out an event. -/
def handle (p : Program σ κ) : InputEvent → ShellWork σ κ φ Unit
  | .none => pure ()
  | .char c => typeChar p c
  | .backspace => backspace
  | .enter => enter p
  | .tab => completeWord p
  | .help => help p
  | .up => recallPrevious p
  | .down => recallNext p
  | .doubleEscape | .killLine => killLine p
  | .interrupt => interrupt p
  | .suspend => suspend p
  | .endOfInput => endOfInput p

/-- Take one character. Only an active shell listens. -/
def process (p : Program σ κ) (c : Char) : ShellWork σ κ φ Unit := do
  let sh ← getThe (Shell σ κ φ)
  if sh.phase = .active then
    let (event, decoder) := sh.decoder.feed c
    set { sh with decoder }
    handle p event

/-- Take characters, up to the first at which the shell fails. -/
def processAll (p : Program σ κ) : List Char → ShellWork σ κ φ Unit
  | [] => pure ()
  | c :: rest => do
    process p c
    processAll p rest

end RouterCli.Shell
