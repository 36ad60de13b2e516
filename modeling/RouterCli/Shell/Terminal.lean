import RouterCli.Text.Blank

/-!
  RouterCli.Shell.Terminal

  A terminal as the shell sees it: it takes characters one at a time and may
  fail at any of them. Text of the interpreter is written with the terminal's
  line breaks.
-/

namespace RouterCli

/-- What was written, and how much more will be taken. -/
structure Terminal where
  /-- The characters taken so far. -/
  written : String := ""
  /-- The characters that will still be taken; without a number, any. -/
  room : Option Nat := none
deriving DecidableEq, Repr, Inhabited

namespace Terminal

/-- Write one character; a terminal without room is left as it was. -/
def put (t : Terminal) (c : Char) : Bool × Terminal :=
  match t.room with
  | none => (true, { t with written := t.written.push c })
  | some 0 => (false, t)
  | some (n + 1) => (true, { written := t.written.push c, room := some n })

/-- Write characters up to the first that fails. -/
def putAll (t : Terminal) : List Char → Bool × Terminal
  | [] => (true, t)
  | c :: rest =>
    match t.put c with
    | (true, t) => t.putAll rest
    | (false, t) => (false, t)

/-- Write a text as it is. -/
def write (t : Terminal) (s : String) : Bool × Terminal :=
  t.putAll s.toList

/-- The line break of a terminal. -/
def lineBreak : String := "\r\n"

/-- Write lines, each behind a line break. -/
def putLines (t : Terminal) : List (List Char) → Bool × Terminal
  | [] => (true, t)
  | line :: rest =>
    match t.write lineBreak with
    | (false, t) => (false, t)
    | (true, t) =>
      match t.putAll line with
      | (false, t) => (false, t)
      | (true, t) => t.putLines rest

/-- Write a text with the terminal's line breaks in the place of its own. -/
def writeText (t : Terminal) (s : String) : Bool × Terminal :=
  match Text.pieces (· == '\n') s.toList with
  | [] => (true, t)
  | first :: rest =>
    match t.putAll first with
    | (false, t) => (false, t)
    | (true, t) => t.putLines rest

end Terminal

end RouterCli
