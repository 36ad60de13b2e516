import RouterCli.Text.Hex

/-!
  RouterCli.Toml.Quoted

  Strings in quotes. There are four kinds: in quotation marks, where a backslash
  begins an escape, or in apostrophes, where nothing does; and either with one
  mark at each end, on one line, or with three, on any number of lines.
-/

namespace RouterCli.Toml

open Text

-- ============================================================================
-- Characters
-- ============================================================================

/-- A space or a tab. -/
def isSpace (c : Char) : Bool :=
  c == ' ' || c == '\t'

/-- A character of a string or a comment: any but the ASCII controls, of which
    the tab alone is one. -/
def isPrintable (c : Char) : Bool :=
  c == '\t' || (0x20 ≤ c.toNat && c.toNat != 0x7F)

/-- The text without the spaces in front. -/
def skipSpaces (cs : List Char) : List Char :=
  cs.dropWhile isSpace

/-- The text behind a line break, where it begins with one. -/
def afterBreak? : List Char → Option (List Char)
  | '\n' :: rest => some rest
  | '\r' :: '\n' :: rest => some rest
  | _ => none

/-- The text without the spaces and line breaks in front. -/
def skipBreaks : List Char → List Char
  | '\n' :: rest => skipBreaks rest
  | '\r' :: '\n' :: rest => skipBreaks rest
  | c :: rest => if isSpace c then skipBreaks rest else c :: rest
  | [] => []

theorem skipBreaks_length_le (cs : List Char) : (skipBreaks cs).length ≤ cs.length := by
  fun_induction skipBreaks cs with
  | case1 rest ih => simp only [List.length_cons]; omega
  | case2 rest ih => simp only [List.length_cons]; omega
  | case3 c rest _ _ _ ih => simp only [List.length_cons]; omega
  | case4 => exact Nat.le_refl _
  | case5 => exact Nat.le_refl _

-- ============================================================================
-- Finding the end
-- ============================================================================

/-- The text up to the closing mark, and what follows it. Where there are
    escapes, a backslash takes the character behind it along. -/
def takeShort (mark : Char) (escapes : Bool) : List Char → Option (List Char × List Char)
  | [] => none
  | c :: rest =>
    if c = mark then some ([], rest)
    else if escapes && c == '\\' then
      match rest with
      | [] => none
      | d :: rest => (takeShort mark escapes rest).map fun (body, rest) => (c :: d :: body, rest)
    else (takeShort mark escapes rest).map fun (body, rest) => (c :: body, rest)

/-- The same with three closing marks. Up to two marks in front of them belong
    to the text. -/
def takeLong (mark : Char) (escapes : Bool) : List Char → Option (List Char × List Char)
  | [] => none
  | c :: rest =>
    let marks := min 5 ((c :: rest).takeWhile (· == mark)).length
    if 3 ≤ marks then some (List.replicate (marks - 3) mark, (c :: rest).drop marks)
    else if escapes && c == '\\' then
      match rest with
      | [] => none
      | d :: rest => (takeLong mark escapes rest).map fun (body, rest) => (c :: d :: body, rest)
    else (takeLong mark escapes rest).map fun (body, rest) => (c :: body, rest)

-- ============================================================================
-- Escapes
-- ============================================================================

/-- The value of digits of some base, the most significant in front. -/
def digitsValue? (base : Nat) (cs : List Char) : Option Nat :=
  cs.foldlM
    (fun n c => ((hexValue? c).filter (· < base)).map (base * n + ·))
    0

/-- The character whose number is written in so many hexadecimal digits. -/
def codePoint? (count : Nat) (cs : List Char) : Option Char :=
  if cs.length = count then
    ((digitsValue? 16 cs).filter (decide <| Nat.isValidChar ·)).map Char.ofNat
  else none

/-- How many digits follow the letter of an escape for any character. -/
def hexLength? : Char → Option Nat
  | 'x' => some 2
  | 'u' => some 4
  | 'U' => some 8
  | _ => none

/-- The character that one letter behind a backslash stands for. -/
def escaped? : Char → Option Char
  | 'b' => some '\x08'
  | 't' => some '\t'
  | 'n' => some '\n'
  | 'f' => some '\x0c'
  | 'r' => some '\r'
  | 'e' => some '\x1b'
  | '"' => some '"'
  | '\\' => some '\\'
  | _ => none

/-- The characters that the text of a string with escapes stands for. On many
    lines, a backslash at the end of one joins it with the next that is not
    blank. -/
def unescape (long : Bool) : List Char → Option (List Char)
  | [] => some []
  | '\\' :: rest =>
    if long && (afterBreak? (skipSpaces rest)).isSome then unescape long (skipBreaks rest)
    else
      match rest with
      | [] => none
      | d :: rest =>
        match hexLength? d with
        | some count =>
          (codePoint? count (rest.take count)).bind fun c =>
            (unescape long (rest.drop count)).map (c :: ·)
        | none => (escaped? d).bind fun c => (unescape long rest).map (c :: ·)
  | '\r' :: '\n' :: rest =>
    if long then (unescape long rest).map ('\r' :: '\n' :: ·) else none
  | c :: rest =>
    if isPrintable c || (long && c == '\n') then (unescape long rest).map (c :: ·) else none
termination_by cs => cs.length
decreasing_by
  · have := skipBreaks_length_le rest
    simp only [List.length_cons]; omega
  · simp only [List.length_cons, List.length_drop]; omega
  · simp only [List.length_cons]; omega
  · simp only [List.length_cons]; omega
  · simp only [List.length_cons]; omega

/-- The text of a string without escapes stands for itself. -/
def isVerbatim (long : Bool) : List Char → Bool
  | [] => true
  | '\r' :: '\n' :: rest => long && isVerbatim long rest
  | c :: rest => (isPrintable c || (long && c == '\n')) && isVerbatim long rest

-- ============================================================================
-- Strings
-- ============================================================================

/-- What the text between the marks stands for. -/
def contentOf (escapes long : Bool) (body : List Char) : Option (List Char) :=
  if escapes then unescape long body
  else if isVerbatim long body then some body
  else none

/-- A string on one line whose opening mark was read. -/
def readShort (mark : Char) (cs : List Char) : Option (String × List Char) := do
  let escapes := mark == '"'
  let (body, rest) ← takeShort mark escapes cs
  let content ← contentOf escapes false body
  return (String.ofList content, rest)

/-- A string on many lines whose opening marks were read. A line break behind
    them is no part of it. -/
def readLong (mark : Char) (cs : List Char) : Option (String × List Char) := do
  let escapes := mark == '"'
  let (body, rest) ← takeLong mark escapes ((afterBreak? cs).getD cs)
  let content ← contentOf escapes true body
  return (String.ofList content, rest)

end RouterCli.Toml
