import RouterCli.Console.Execute

/-!
  RouterCli.Console.Replay

  Running the lines of a configuration text. Words must be spelled out, and the
  indentation of a line says to which node it belongs: a line deeper than the
  one above it belongs to the node that one entered, a line less deep to the
  open level with its very indentation.
-/

namespace RouterCli

-- ============================================================================
-- Configuration texts
-- ============================================================================

/-- The lines of a configuration text, as far as they can be read. -/
structure ConfigText where
  /-- The lines, without the line breaks at their ends. -/
  lines : List String
  /-- Why the reading ended before the text did. -/
  broken : Option FileError := none
deriving DecidableEq, Repr

namespace ConfigText

/-- The runs between line feeds; a line feed at the end has none behind it. -/
def rawLines (isBreak : α → Bool) : List α → List (List α)
  | [] => []
  | a :: rest =>
    if isBreak a then [] :: rawLines isBreak rest
    else
      match rest, rawLines isBreak rest with
      | [], _ => [[a]]
      | _, [] => [[a]]
      | _, l :: ls => (a :: l) :: ls

/-- The lines of a text. -/
def ofString (s : String) : ConfigText where
  lines := (rawLines (· == '\n') s.toList).map fun l => Text.trimLineBreaks (String.ofList l)

/-- The first line of bytes with its line feed, if it has one. -/
def firstLine : List UInt8 → List UInt8
  | [] => []
  | b :: rest => if b = 10 then [b] else b :: firstLine rest

/-- Decode lines up to the first that is not UTF-8. -/
def decodeLines : List (List UInt8) → ConfigText
  | [] => { lines := [] }
  | bytes :: rest =>
    match Text.decode? bytes with
    | none => { lines := [], broken := some .invalidUtf8 }
    | some line =>
      let more := decodeLines rest
      { more with lines := Text.trimLineBreaks line :: more.lines }

/-- The lines of the bytes of a text. -/
def ofBytes (bytes : List UInt8) : ConfigText :=
  decodeLines (rawLines (· == 10) bytes)

end ConfigText

-- ============================================================================
-- Errors
-- ============================================================================

/-- Why a replay stopped. A line is given by its number, from one, and text. -/
inductive ReplayError where
  | command (number : Nat) (line : String) (error : CommandError)
  | invalidIndent (number : Nat) (line : String)
  | deferred (number : Nat) (line : String)
  | unreadable (cause : FileError)
deriving DecidableEq, Repr

namespace ReplayError

/-- A line and what is wrong with it. -/
def atLine (number : Nat) (line : String) (problem : String) : String :=
  s!"line {number}: '" ++ line ++ "': " ++ problem

/-- The words for an error. -/
def message : ReplayError → String
  | command number line error => atLine number line error.message
  | invalidIndent number line => atLine number line "invalid indentation"
  | deferred number line => atLine number line "command belongs to another daemon"
  | unreadable cause => "failed to read configuration: " ++ cause.message

/-- The error of the command behind it. -/
def commandError? : ReplayError → Option CommandError
  | command _ _ error => some error
  | invalidIndent _ _ => some .invalidIndent
  | deferred _ _ | unreadable _ => none

/-- The error for a command that ended the replay. -/
def ofOutcome (number : Nat) (line : String) : Outcome → ReplayError
  | .ok _ => deferred number line
  | .error error => command number line error

end ReplayError

-- ============================================================================
-- Levels
-- ============================================================================

namespace Program

variable {σ κ φ : Type}

/-- Go up while the line is less deep than the level, in at most `fuel` steps;
    `order` compares the line with the level. The session where the way ended
    is returned with whether its level is the line's. -/
def ascendTo (p : Program σ κ) (app : σ) (indent : String) :
    Nat → Ordering → Session κ → Bool × Session κ
  | 0, order, s => (order == .eq, s)
  | fuel + 1, order, s =>
    if order ≠ .lt then (order == .eq, s)
    else
      let up := p.goParent app s
      if up.node = s.node ∧ up.parents.length = s.parents.length then (false, up)
      else
        match compareIndent indent (up.indent.getD "") with
        | none => (false, up)
        | some order => p.ascendTo app indent fuel order up

/-- Compare a line with the innermost level to return to; without one it is
    deeper. -/
def compareParent (s : Session κ) (indent : String) : Option Ordering :=
  match s.parents with
  | [] => some .gt
  | f :: _ => compareIndent indent (f.indent.getD "")

/-- Move to the level of a line's indentation, and tell whether there is one.
    At a level that has no indentation yet a deeper line gives it its own. -/
def align (p : Program σ κ) (app : σ) (indent : String) (s : Session κ) :
    Bool × Session κ :=
  let bound := p.ascentBound s
  match s.indent with
  | some current =>
    match compareIndent indent current with
    | none => (false, s)
    | some order => p.ascendTo app indent bound order s
  | none =>
    match compareParent s indent with
    | none => (false, s)
    | some .gt => (true, s.setIndent (some indent))
    | some order => p.ascendTo app indent bound order (p.goParent app s)

-- ============================================================================
-- Replaying
-- ============================================================================

/-- Open a level for what a line entered: if the session is at another node,
    and no level was added or taken away, the line's own level is the one to
    return to. -/
def openLevel (before : Session κ) (s : Session κ) : Session κ :=
  if s.node ≠ before.node ∧ s.epoch = before.epoch then
    (s.pushParent before.frame).setIndent none
  else s

variable [FileStore φ]

/-- Run one line of a configuration text. -/
def replayLine (p : Program σ κ) (number : Nat) (text : String) (c : Console σ κ φ) :
    Except ReplayError Unit × Console σ κ φ :=
  let misplaced := fun (c : Console σ κ φ) =>
    (Except.error (ReplayError.invalidIndent number text),
      c.log .warn s!"line {number}: invalid indentation")
  match Line.parseIndented text with
  | .error _ => misplaced c
  | .ok line =>
    if line.isEmpty then (.ok (), c)
    else
      let (fits, s) := p.align c.app line.indent c.session
      let c := { c with session := s }
      if !fits then misplaced c
      else
        let (outcome, c) := p.dispatch line.words true c
        if outcome.isTolerated then (.ok (), c.mapSession (openLevel s))
        else (.error (.ofOutcome number text outcome), c)

/-- Run lines in order, numbered from `number`. -/
def replayFrom (p : Program σ κ) (number : Nat) (c : Console σ κ φ) :
    List String → Except ReplayError Unit × Console σ κ φ
  | [] => (.ok (), c)
  | line :: rest =>
    match p.replayLine number line c with
    | (.error e, c) => (.error e, c)
    | (.ok (), c) => p.replayFrom (number + 1) c rest

/-- Run a configuration text. -/
def replay (p : Program σ κ) (text : ConfigText) (c : Console σ κ φ) :
    Except ReplayError Unit × Console σ κ φ :=
  match p.replayFrom 1 c text.lines with
  | (.error e, c) => (.error e, c)
  | (.ok (), c) =>
    match text.broken with
    | some cause => (.error (.unreadable cause), c)
    | none => (.ok (), c)

/-- Run the lines of an open file from a position on, numbered from `number`,
    at most `fuel` of them. The file is looked at anew for each line, since the
    one before may have added to it. -/
def replayOpen (p : Program σ κ) (file : FileHandle) :
    Nat → Nat → Nat → Console σ κ φ → Except ReplayError Unit × Console σ κ φ
  | 0, _, _, c => (.ok (), c)
  | fuel + 1, number, start, c =>
    match FileStore.readFrom c.world.files file start with
    | .error cause => (.error (.unreadable cause), c)
    | .ok bytes =>
      match ConfigText.firstLine bytes with
      | [] => (.ok (), c)
      | line =>
        match Text.decode? line with
        | none => (.error (.unreadable .invalidUtf8), c)
        | some text =>
          match p.replayLine number (Text.trimLineBreaks text) c with
          | (.error e, c) => (.error e, c)
          | (.ok (), c) => p.replayOpen file fuel (number + 1) (start + line.length) c

/-- More lines than a file of so many bytes has, and than may be added to it
    while it is read. -/
def lineBound (size : Nat) : Nat :=
  size + UInt32.size

/-- Run the configuration text of a file. -/
def load (p : Program σ κ) (path : String) (c : Console σ κ φ) :
    Except ReplayError Unit × Console σ κ φ :=
  match FileStore.openRead c.world.files path with
  | .error cause => (.error (.unreadable cause), c)
  | .ok file =>
    let size := ((FileStore.readFrom c.world.files file 0).toOption.getD []).length
    match p.replayOpen file (lineBound size) 1 0 c with
    | (.ok (), c) => (.ok (), c.log .info ("configuration loaded from " ++ path))
    | failed => failed

end Program

end RouterCli
