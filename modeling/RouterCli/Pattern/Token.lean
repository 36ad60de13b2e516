import RouterCli.Pattern.Range

/-!
  RouterCli.Pattern.Token

  The tokens of a command pattern. An atom stands for one typed word; a token
  is an atom, or an atom in optional brackets. Brackets open one layer only:
  inside them a further `[` begins an ordinary keyword.
-/

namespace RouterCli

-- ============================================================================
-- Atoms
-- ============================================================================

/-- What an atom takes. -/
inductive Shape where
  /-- The literal text, or the start of it. -/
  | keyword
  /-- An integer; without bounds, as in `<x>`, it takes nothing. -/
  | range (bounds : Option Range)
  /-- `A.B.C.D` -/
  | ipv4
  /-- `A.B.C.D/M` -/
  | ipv4Prefix
  /-- `X:X::X:X` -/
  | ipv6
  /-- `X:X::X:X/M` -/
  | ipv6Prefix
  /-- A free word, written with a capital first. -/
  | variable
  /-- The rest of the line, written with a dot first. -/
  | vararg
deriving DecidableEq, Repr

namespace Shape

/-- The shape that a pattern word is written in. -/
def ofText (text : String) : Shape :=
  match text.toList.head? with
  | some '.' => .vararg
  | some '<' => .range (Range.parse? text)
  | first =>
    if text = "X:X::X:X" then .ipv6
    else if text = "X:X::X:X/M" then .ipv6Prefix
    else if text = "A.B.C.D" then .ipv4
    else if text = "A.B.C.D/M" then .ipv4Prefix
    else if first.any Char.isUpper then .variable
    else .keyword

/-- A placeholder for one value: a variable, a range or an address. -/
def isVariable : Shape → Bool
  | .variable | .range _ | .ipv4 | .ipv4Prefix | .ipv6 | .ipv6Prefix => true
  | .keyword | .vararg => false

end Shape

/-- A pattern word and its shape. -/
structure Atom where
  text : String
  shape : Shape
deriving DecidableEq, Repr

namespace Atom

/-- The atom written as `text`. -/
def ofText (text : String) : Atom :=
  ⟨text, Shape.ofText text⟩

/-- A placeholder for one value. -/
def isVariable (a : Atom) : Bool :=
  a.shape.isVariable

end Atom

-- ============================================================================
-- Tokens
-- ============================================================================

/-- An atom, or an atom in optional brackets. -/
inductive Token where
  | bare (atom : Atom)
  /-- `[inner]`; without an inner atom, as in `[]`, it takes nothing. -/
  | optional (text : String) (inner : Option Atom)
deriving DecidableEq, Repr

namespace Token

/-- The text without its first and its last character. -/
def insideBrackets (text : String) : String :=
  String.ofList (text.toList.drop 1).dropLast

/-- Read one word of a pattern. Brackets of fewer than three bytes enclose
    nothing; whatever closes longer ones is dropped unseen. -/
def ofText (text : String) : Token :=
  if text.toList.head? = some '[' then
    if text.utf8ByteSize < 3 then .optional text none
    else .optional text (some (Atom.ofText (insideBrackets text)))
  else .bare (Atom.ofText text)

/-- The text as the pattern has it. -/
def text : Token → String
  | bare atom => atom.text
  | optional text _ => text

/-- The token without its brackets; empty brackets leave nothing. -/
def atom? : Token → Option Atom
  | bare atom => some atom
  | optional _ inner => inner

/-- A placeholder for one value, not in brackets. -/
def isVariable : Token → Bool
  | bare atom => atom.isVariable
  | optional .. => false

/-- A word in brackets. -/
def isOptional : Token → Bool
  | bare _ => false
  | optional .. => true

/-- The free text at the end of a command. -/
def isVararg : Token → Bool
  | bare atom => atom.shape == .vararg
  | optional .. => false

end Token

end RouterCli
