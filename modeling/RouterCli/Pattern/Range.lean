import RouterCli.Text.Numeral

/-!
  RouterCli.Pattern.Range

  Integer ranges as a pattern writes them, `<0-512>` or `<-100-100>`, and the
  words they take. A minus sign in front makes the range signed; its upper
  bound may then be negative too, as in `<-10--5>`.
-/

namespace RouterCli

/-- The bounds of a range, both included. -/
inductive Range where
  /-- Bounds for unsigned numerals of 64 bits. -/
  | unsigned (min max : Nat)
  /-- Bounds for signed numerals of 64 bits. -/
  | signed (min max : Int)
deriving DecidableEq, Repr

namespace Range

open Text

/-- The longest text of one bound, in bytes. -/
def boundLength : Nat := 10

/-- The text of a bound is short enough. -/
def boundFits (cs : List Char) : Bool :=
  (String.ofList cs).utf8ByteSize ≤ boundLength

/-- Read the two bounds between the angle brackets. -/
def ofBounds? : List Char → Option Range
  | '-' :: rest => do
    let (low, high) ← splitFirst '-' rest
    guard (boundFits low && boundFits high)
    let min ← readSigned (maxSigned 64) low
    let max ← readSigned (maxSigned 64) high
    return .signed (-min) max
  | cs => do
    let (low, high) ← splitFirst '-' cs
    guard (boundFits low && boundFits high)
    let min ← readUnsigned (maxUnsigned 64) low
    let max ← readUnsigned (maxUnsigned 64) high
    return .unsigned min max

/-- Read a range token. What stands after the first `>` is ignored. -/
def parse? (text : String) : Option Range :=
  match text.toList with
  | '<' :: body => do
    let (bounds, _) ← splitFirst '>' body
    ofBounds? bounds
  | _ => none

/-- The word is a numeral of 64 bits within the bounds. -/
def accepts (range : Range) (word : String) : Bool :=
  match range with
  | .unsigned min max =>
    (readUnsigned (maxUnsigned 64) word.toList).any fun n => min ≤ n && n ≤ max
  | .signed min max =>
    (readSigned (maxSigned 64) word.toList).any fun n => min ≤ n && n ≤ max

end Range

end RouterCli
