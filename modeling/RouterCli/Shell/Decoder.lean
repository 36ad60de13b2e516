import RouterCli.Text.Blank

/-!
  RouterCli.Shell.Decoder

  Line editing events from the characters of a terminal, one event a character.
  The decoder remembers two things: how far it is into an escape sequence, and
  whether the last character was a carriage return.
-/

namespace RouterCli

/-- What a character means to the shell. -/
inductive InputEvent where
  /-- Nothing, or nothing yet. -/
  | none
  | char (c : Char)
  | backspace
  | enter
  | tab
  | help
  | up
  | down
  /-- Escape, twice. -/
  | doubleEscape
  | interrupt
  | suspend
  | endOfInput
  | killLine
deriving DecidableEq, Repr

/-- How far into an escape sequence. -/
inductive EscapeState where
  | normal
  | escape
  /-- Behind an escape and an opening bracket. -/
  | bracket
deriving DecidableEq, Repr

/-- What the decoder remembers. -/
structure Decoder where
  escape : EscapeState := .normal
  /-- The last character was a carriage return. -/
  afterReturn : Bool := false
deriving DecidableEq, Repr, Inhabited

namespace Decoder

/-- The event of a character outside of escape sequences. A line feed behind a
    carriage return belongs to it. -/
def normalEvent (afterReturn : Bool) (c : Char) : InputEvent :=
  match c with
  | '\r' => .enter
  | '\n' => if afterReturn then .none else .enter
  | '\t' => .tab
  | '?' => .help
  | '\x08' | '\x7f' => .backspace
  | '\x03' => .interrupt
  | '\x04' => .endOfInput
  | '\x15' => .killLine
  | '\x1a' => .suspend
  | c => if Text.isControl c then .none else .char c

/-- Take one character. Every character ends the memory of a carriage return. -/
def feed (d : Decoder) (c : Char) : InputEvent × Decoder :=
  match d.escape with
  | .normal =>
    if c = '\x1b' then (.none, { escape := .escape })
    else (normalEvent d.afterReturn c, { afterReturn := c == '\r' })
  | .escape =>
    if c = '\x1b' then (.doubleEscape, {})
    else if c = '[' then (.none, { escape := .bracket })
    else (.char c, {})
  | .bracket =>
    if c = 'A' then (.up, {})
    else if c = 'B' then (.down, {})
    else (.none, {})

/-- Take characters in order. -/
def feedAll (d : Decoder) : List Char → List InputEvent × Decoder
  | [] => ([], d)
  | c :: rest =>
    let (event, d) := d.feed c
    let (events, d) := d.feedAll rest
    (event :: events, d)

end Decoder

end RouterCli
