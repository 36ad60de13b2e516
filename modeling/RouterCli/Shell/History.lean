import RouterCli.Text.Blank

/-!
  RouterCli.Shell.History

  The lines that were entered, and a cursor to walk among them.
-/

namespace RouterCli

/-- Remembered lines, the oldest first, and the place of the cursor. -/
structure History where
  limit : Nat
  /-- The longest line that is kept, in bytes. -/
  lineSize : Nat
  lines : List String := []
  /-- Where the cursor stands, if it is among the lines. -/
  position : Option Nat := none
deriving DecidableEq, Repr

namespace History

/-- An empty history of room for `capacity` lines, of which `limit` are used. -/
def withLimit (capacity lineSize limit : Nat) : History :=
  { limit := min limit capacity, lineSize }

/-- A line that is not kept: a blank one, one too long, or the newest again. -/
def refuses (h : History) (line : String) : Bool :=
  Text.isAllBlank line || h.limit == 0 || h.lines.getLast? == some line ||
    h.lineSize < line.utf8ByteSize

/-- Remember a line, at the cost of the oldest where there is no room. The
    cursor leaves the lines. -/
def add (h : History) (line : String) : History :=
  if h.refuses line then { h with position := none }
  else
    let kept := if h.limit ≤ h.lines.length then h.lines.drop 1 else h.lines
    { h with lines := kept ++ [line], position := none }

/-- One line back; at the oldest line the cursor stays. -/
def previous (h : History) : Option String × History :=
  if h.lines.isEmpty then (none, h)
  else
    let p := (h.position.getD h.lines.length) - 1
    (h.lines[p]?, { h with position := some p })

/-- One line on; behind the newest line the cursor leaves the lines. -/
def next (h : History) : Option String × History :=
  match h.position with
  | none => (none, h)
  | some p =>
    if h.lines.length ≤ p + 1 then (none, { h with position := none })
    else (h.lines[p + 1]?, { h with position := some (p + 1) })

/-- The cursor is among the lines. -/
def isNavigating (h : History) : Bool :=
  h.position.isSome

/-- Take the cursor off the lines. -/
def resetPosition (h : History) : History :=
  { h with position := none }

end History

end RouterCli
