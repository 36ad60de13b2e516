import RouterCli.Outcome
import RouterCli.Text.Blank

/-!
  RouterCli.Line

  A command line split into words: a line that was entered, a line of a
  configuration text with its indentation, and a line still being typed.
-/

namespace RouterCli

open Text

-- ============================================================================
-- Entered lines
-- ============================================================================

/-- A line in words. -/
structure Line where
  indent : String
  /-- The words; a comment has none. -/
  words : List String
deriving DecidableEq, Repr

namespace Line

/-- The words of a text, none where it begins as a comment. -/
def wordsOf (body : List Char) : List String :=
  match body.head? with
  | some '!' | some '#' => []
  | _ => (wordRuns body).map String.ofList

/-- Split a line; any blanks may stand in front. -/
def parse (input : String) : Line :=
  let cs := input.toList
  ⟨String.ofList (cs.takeWhile isBlank), wordsOf (cs.dropWhile isBlank)⟩

/-- Split off an indentation of spaces, of which `count` have been read. A line
    break starts it anew; any other blank is refused. -/
def splitIndent (count : Nat) : List Char → Except CommandError (Nat × List Char)
  | [] => .ok (count, [])
  | c :: rest =>
    if c = ' ' then splitIndent (count + 1) rest
    else if isLineBreak c then splitIndent 0 rest
    else if isBlank c then .error .invalidIndent
    else .ok (count, c :: rest)

/-- An indentation of `count` spaces. -/
def spaces (count : Nat) : String :=
  String.ofList (List.replicate count ' ')

/-- Split a line of a configuration text. -/
def parseIndented (input : String) : Except CommandError Line :=
  (splitIndent 0 input.toList).map fun (count, body) => ⟨spaces count, wordsOf body⟩

/-- The first word. -/
def first? (line : Line) : Option String :=
  line.words.head?

/-- A blank line or a comment. -/
def isEmpty (line : Line) : Bool :=
  line.words.isEmpty

end Line

-- ============================================================================
-- Lines being typed
-- ============================================================================

/-- A line up to the cursor. -/
structure PartialLine where
  words : List String
  /-- The word under the cursor; none where a new word is about to start. -/
  current : Option String
deriving DecidableEq, Repr

namespace PartialLine

/-- Split the text before the cursor. -/
def parse (input : String) : PartialLine :=
  let ws := Text.words input
  if input.toList.getLast?.all isBlank then ⟨ws, none⟩
  else ⟨ws.dropLast, ws.getLast?⟩

/-- The position of the word under the cursor. -/
def index (line : PartialLine) : Nat :=
  line.words.length

/-- The line behind its first finished word; without one, nothing is left. -/
def shifted (line : PartialLine) : PartialLine :=
  match line.words with
  | _ :: rest => ⟨rest, line.current⟩
  | [] => ⟨[], none⟩

/-- The first word, finished or not. -/
def first? (line : PartialLine) : Option String :=
  line.words.head? <|> line.current

end PartialLine

-- ============================================================================
-- Indentations
-- ============================================================================

/-- Compare two indentations by length where the shorter begins the longer;
    others have no order. -/
def compareIndent (a b : String) : Option Ordering :=
  let as := a.toList
  let bs := b.toList
  if as.isPrefixOf bs || bs.isPrefixOf as then some (compare as.length bs.length)
  else none

end RouterCli
