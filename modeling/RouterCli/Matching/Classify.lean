import RouterCli.Address.Ipv6
import RouterCli.Command.Basic

/-!
  RouterCli.Matching.Classify

  Grading one typed word against one token. The threshold bears on the
  precision of the word only: a keyword begun or an address begun falls short
  of a strict threshold, while ranges, variables and free text are graded alike
  under all of them.
-/

namespace RouterCli

namespace Grade

/-- Grade a word against a literal text. -/
def ofKeyword (text word : String) (min : Grade) : Grade :=
  if !Text.startsWith text word then noMatch
  else if text = word then exact
  else if min ≤ partly then partly
  else noMatch

end Grade

namespace Atom

/-- Grade a word against an atom. -/
def classify (a : Atom) (word : String) (min : Grade) : Grade :=
  match a.shape with
  | .keyword => .ofKeyword a.text word min
  | .vararg => .vararg
  | .range bounds => if bounds.any (·.accepts word) then .range else .noMatch
  | .ipv6 => .ifReached (Ipv6.walk word) min .ipv6
  | .ipv6Prefix => .ifReached (Ipv6.walkPrefix word) min .ipv6Prefix
  | .ipv4 => .ifReached (Ipv4.walk word) min .ipv4
  | .ipv4Prefix => .ifReached (Ipv4.walkPrefix word) min .ipv4Prefix
  | .variable => .extend

end Atom

namespace Token

/-- Grade a word against a token. With `unwrap` the brackets of an optional
    token are opened; without it their text is a keyword. -/
def classify (t : Token) (word : String) (min : Grade) (unwrap : Bool) : Grade :=
  match t with
  | bare atom => atom.classify word min
  | optional text inner =>
    if unwrap then
      match inner with
      | some atom => atom.classify word min
      | none => .noMatch
    else .ofKeyword text word min

end Token

namespace Level

/-- The strongest grade of the alternatives. -/
def grade (level : Level) (word : String) (min : Grade) : Grade :=
  Grade.strongest (level.map fun a => a.token.classify word min true)

/-- The alternatives without their brackets. -/
def atoms (level : Level) : List Atom :=
  level.filterMap (·.token.atom?)

end Level

namespace Element

/-- The strongest grade of a word at `index`; a pattern that ends before has
    none. -/
def grade (e : Element) (index : Nat) (word : String) (min : Grade) : Grade :=
  match e.level? index with
  | some level => level.grade word min
  | none => .noMatch

/-- The atoms that may stand at `index`. -/
def atomsAt (e : Element) (index : Nat) : List Atom :=
  match e.level? index with
  | some level => level.atoms
  | none => []

end Element

end RouterCli
