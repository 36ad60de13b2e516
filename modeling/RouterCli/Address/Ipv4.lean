import RouterCli.Grade
import RouterCli.Text.Numeral

/-!
  RouterCli.Address.Ipv4

  Walks over a dotted quad, with or without a `/mask`, that is still being
  typed: `exact` for a finished literal, `partly` while the word may grow
  into one, `noMatch` for the rest.
-/

namespace RouterCli.Ipv4

open RouterCli.Text (digitValue decimalValue)

/-- The digits read since the last separator. -/
structure Group where
  length : Nat
  value : Nat
deriving Repr, DecidableEq

namespace Group

/-- Nothing read yet. -/
def empty : Group := ⟨0, 0⟩

/-- The group with one more digit. -/
def push (g : Group) (digit : Char) : Group :=
  ⟨g.length + 1, 10 * g.value + digitValue digit⟩

/-- Short and small enough for one byte; the empty group counts as zero. -/
def fits (g : Group) : Bool :=
  g.length ≤ 3 && g.value ≤ 255

end Group

-- ============================================================================
-- Addresses
-- ============================================================================

/-- Walk on after `dots` dots and the digits of `group`. A dot at the end of
    the word is answered before its group is measured. -/
def walkFrom (dots : Nat) (group : Group) : List Char → Grade
  | [] =>
    if !group.fits then .noMatch
    else if dots < 3 then .partly
    else .exact
  | '.' :: rest =>
    if dots ≥ 3 || rest.head? == some '.' then .noMatch
    else if rest.isEmpty then .partly
    else if group.fits then walkFrom (dots + 1) Group.empty rest
    else .noMatch
  | c :: rest =>
    if c.isDigit then walkFrom dots (group.push c) rest else .noMatch

/-- Walk an address `A.B.C.D`. -/
def walk (word : String) : Grade :=
  walkFrom 0 Group.empty word.toList

-- ============================================================================
-- Addresses with a mask
-- ============================================================================

/-- A mask length in decimal, leading zeros allowed, of at most `limit`. -/
def isMask (limit : Nat) (cs : List Char) : Bool :=
  cs.all Char.isDigit && decimalValue cs ≤ limit

/-- The longest mask of an IPv4 address. -/
def maskLimit : Nat := 32

/-- Walk on towards the mask after `dots` dots and the digits of `group`. A
    slash before the third dot ends its group without being counted. -/
def walkPrefixFrom (dots : Nat) (group : Group) : List Char → Grade
  | [] => if group.fits then .partly else .noMatch
  | '/' :: rest =>
    if !group.fits then .noMatch
    else if dots ≠ 3 then walkPrefixFrom dots Group.empty rest
    else if rest.isEmpty then .partly
    else if isMask maskLimit rest then .exact
    else .noMatch
  | '.' :: rest =>
    if dots = 3 || rest.head? == some '.' || rest.head? == some '/' then .noMatch
    else if rest.isEmpty then .partly
    else if group.fits then walkPrefixFrom (dots + 1) Group.empty rest
    else .noMatch
  | c :: rest =>
    if c.isDigit then walkPrefixFrom dots (group.push c) rest else .noMatch

/-- Walk an address with a mask, `A.B.C.D/M`. -/
def walkPrefix (word : String) : Grade :=
  walkPrefixFrom 0 Group.empty word.toList

end RouterCli.Ipv4
