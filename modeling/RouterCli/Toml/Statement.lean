import RouterCli.Toml.Moment
import RouterCli.Toml.Number
import RouterCli.Toml.Value

/-!
  RouterCli.Toml.Statement

  The statements of a settings document: headers, and keys with their values.
  A reader takes something from the front of a text and returns it with the
  rest; at a text that it cannot read it fails.
-/

namespace RouterCli.Toml

/-- Takes a value from the front of a text. -/
abbrev Reader (α : Type) := List Char → Option (α × List Char)

-- ============================================================================
-- Between the words
-- ============================================================================

/-- The text behind blanks, line breaks and comments; `comment` says whether it
    begins within one. -/
def skipFiller (comment : Bool) : List Char → Option (List Char)
  | [] => some []
  | '\n' :: rest => skipFiller false rest
  | '\r' :: '\n' :: rest => skipFiller false rest
  | c :: rest =>
    if comment then if isPrintable c then skipFiller true rest else none
    else if c = '#' then skipFiller true rest
    else if isSpace c then skipFiller false rest
    else some (c :: rest)

/-- The text behind the end of a line, in front of which there may be blanks and
    a comment. -/
def endLine (cs : List Char) : Option (List Char) :=
  let cs :=
    match skipSpaces cs with
    | '#' :: rest => rest.dropWhile isPrintable
    | cs => cs
  if cs.isEmpty then some [] else afterBreak? cs

-- ============================================================================
-- Keys
-- ============================================================================

/-- A character of a key without quotes. -/
def isBare (c : Char) : Bool :=
  c.isAlphanum || c == '-' || c == '_'

/-- One key. Strings on many lines are none. -/
def readKey : Reader String
  | '"' :: '"' :: '"' :: _ | '\'' :: '\'' :: '\'' :: _ => none
  | '"' :: rest => readShort '"' rest
  | '\'' :: rest => readShort '\'' rest
  | cs =>
    let name := cs.takeWhile isBare
    if name.isEmpty then none else some (String.ofList name, cs.dropWhile isBare)

/-- Keys with dots between them, and the spaces behind. -/
def readKeys (cs : List Char) : Option (List String × List Char) :=
  match readKey cs with
  | none => none
  | some (key, rest) =>
    match skipSpaces rest with
    | '.' :: more =>
      let more := skipSpaces more
      if more.length < cs.length then
        (readKeys more).map fun (keys, rest) => (key :: keys, rest)
      else none
    | rest => some ([key], rest)
termination_by cs.length

/-- How deep a document may go: so many keys make a path, and so many brackets
    and braces may be open at once. -/
def depthLimit : Nat := 80

/-- A path of keys, and the spaces behind. -/
def readPath : Reader (List String) := fun cs =>
  (readKeys cs).filter fun (keys, _) => keys.length ≤ depthLimit

-- ============================================================================
-- Values
-- ============================================================================

/-- A character of a value without quotes. -/
def isScalarChar (c : Char) : Bool :=
  c ∉ ['=', ',', '[', ']', '{', '}', ' ', '\t', '#', '\r', '\n']

/-- The text of a value without quotes. A date may have a time behind a
    space. -/
def takeScalar (cs : List Char) : List Char × List Char :=
  let word := cs.takeWhile isScalarChar
  match cs.dropWhile isScalarChar with
  | ' ' :: d :: more =>
    if isDate word && d.isDigit then
      (word ++ ' ' :: (d :: more).takeWhile isScalarChar, (d :: more).dropWhile isScalarChar)
    else (word, ' ' :: d :: more)
  | rest => (word, rest)

/-- The value that a text without quotes stands for. -/
def scalar? (word : List Char) : Option Value :=
  if word = "true".toList then some (.truth true)
  else if word = "false".toList then some (.truth false)
  else if isMoment word then some (.moment (String.ofList word))
  else (readNumber word).map .number

/-- A value that holds no others. -/
def readPlain : Reader Value
  | '"' :: '"' :: '"' :: rest => (readLong '"' rest).map fun (s, rest) => (.text s, rest)
  | '\'' :: '\'' :: '\'' :: rest => (readLong '\'' rest).map fun (s, rest) => (.text s, rest)
  | '"' :: rest => (readShort '"' rest).map fun (s, rest) => (.text s, rest)
  | '\'' :: rest => (readShort '\'' rest).map fun (s, rest) => (.text s, rest)
  | cs =>
    let (word, rest) := takeScalar cs
    (scalar? word).map (·, rest)

/-- Items with commas between them, up to the closing bracket. The last may have
    a comma behind it. -/
def readItems {α : Type} (item : Reader α) (close : Char) (cs : List Char) :
    Option (List α × List Char) :=
  match skipFiller false cs with
  | none | some [] => none
  | some (c :: rest) =>
    if c = close then some ([], rest)
    else
      match item (c :: rest) with
      | none => none
      | some (a, rest) =>
        match skipFiller false rest with
        | none | some [] => none
        | some (c :: rest) =>
          if c = close then some ([a], rest)
          else if c = ',' ∧ rest.length < cs.length then
            (readItems item close rest).map fun (as, rest) => (a :: as, rest)
          else none
termination_by cs.length

/-- A key with its value; `gap` skips what may stand around the sign between
    them. -/
def readPair (gap : List Char → Option (List Char)) (value : Reader Value) :
    Reader (List String × Value) := fun cs => do
  let (path, rest) ← readPath cs
  match ← gap rest with
  | '=' :: rest =>
    let (v, rest) ← value (← gap rest)
    return ((path, v), rest)
  | _ => none

/-- The table that pairs in braces make. -/
def tableOf (pairs : List (List String × Value)) : Option Value :=
  (pairs.foldlM (fun entries (path, v) => addPair path v .braces entries) []).map (.table .braces)

/-- A value in at most so many pairs of brackets and braces. Inside of them lines
    may end wherever a blank may stand, other than within a path. -/
def readValue : Nat → Reader Value
  | 0, cs => readPlain cs
  | depth + 1, '[' :: rest =>
    (readItems (readValue depth) ']' rest).map fun (items, rest) => (.array false items, rest)
  | depth + 1, '{' :: rest =>
    (readItems (readPair (skipFiller false) (readValue depth)) '}' rest).bind fun (pairs, rest) =>
      (tableOf pairs).map (·, rest)
  | _ + 1, cs => readPlain cs

-- ============================================================================
-- Statements
-- ============================================================================

/-- What a line says. -/
inductive Statement where
  | table (path : List String)
  /-- What follows belongs to a new table of an array. -/
  | item (path : List String)
  | pair (path : List String) (value : Value)

/-- A path up to the closing brackets of its header. -/
def readHeader (close cs : List Char) : Option (List String × List Char) := do
  let (path, rest) ← readPath (skipSpaces cs)
  if close.isPrefixOf rest then some (path, rest.drop close.length) else none

/-- A statement without the end of its line. -/
def readBody : Reader Statement
  | '[' :: '[' :: rest => (readHeader [']', ']'] rest).map fun (path, rest) => (.item path, rest)
  | '[' :: rest => (readHeader [']'] rest).map fun (path, rest) => (.table path, rest)
  | cs =>
    (readPair (some ∘ skipSpaces) (readValue depthLimit) cs).map fun ((path, v), rest) =>
      (.pair path v, rest)

/-- A statement with the end of its line. -/
def readStatement : Reader Statement := fun cs => do
  let (statement, rest) ← readBody cs
  return (statement, ← endLine rest)

end RouterCli.Toml
