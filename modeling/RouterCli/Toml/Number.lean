import RouterCli.Text.Numeral
import RouterCli.Toml.Quoted

/-!
  RouterCli.Toml.Number

  Numbers: whole ones, in decimal or with the letter of another base, and those
  with a fraction or an exponent. Reading a number asks for its shape; the value
  of a whole number is worked out apart, for some texts of the right shape have
  none.
-/

namespace RouterCli.Toml

open Text

-- ============================================================================
-- Digits
-- ============================================================================

/-- Whether there is a minus in front of a number, and what follows the sign. -/
def takeSign : List Char → Bool × List Char
  | '-' :: rest => (true, rest)
  | '+' :: rest => (false, rest)
  | cs => (false, cs)

/-- The text without its underscores, each of which has to stand between two
    digits. -/
def ungroup? (isDigit : Char → Bool) (cs : List Char) : Option (List Char) :=
  let groups := pieces (· == '_') cs
  if groups.dropLast.all (·.getLast?.any isDigit) && groups.tail.all (·.head?.any isDigit) then
    some groups.flatten
  else none

/-- A zero in front of other digits. -/
def hasIdleZero (digits : List Char) : Bool :=
  digits.head? == some '0' && digits != ['0']

-- ============================================================================
-- Whole numbers
-- ============================================================================

/-- The value of a numeral of some base; one without digits has none. -/
def wholeValue? (base : Nat) (digits : List Char) : Option Int :=
  if digits.isEmpty then none else (digitsValue? base digits).map Int.ofNat

/-- The digits behind the letter of a base. There may be none at all. -/
def readBased (base : Nat) (cs : List Char) : Option (Option Int) :=
  if cs.all fun c => c == '_' || (hexValue? c).any (· < base) then
    (ungroup? isHexDigit cs).map (wholeValue? base)
  else none

/-- A decimal number behind its sign. Digits come first; behind an underscore
    anything may follow, and then the text has the shape of a number, but no
    value unless there are only digits. -/
def readWhole (negative : Bool) (cs : List Char) : Option (Option Int) :=
  let rest := cs.dropWhile Char.isDigit
  if cs.isEmpty || hasIdleZero cs || !(rest.isEmpty || rest.head? == some '_') then none
  else
    (ungroup? isHexDigit cs).map fun digits =>
      (wholeValue? 10 digits).map fun n => if negative then -n else n

/-- A whole number fits into 128 bits, with a sign or without. -/
def fitsWhole (n : Int) : Bool :=
  -((1 <<< 127 : Nat) : Int) ≤ n && n < ((1 <<< 128 : Nat) : Int)

-- ============================================================================
-- Numbers with a fraction or an exponent
-- ============================================================================

/-- The number `digits * 10 ^ exponent`. -/
structure Decimal where
  digits : Nat
  /-- The power of ten they are counted in. -/
  exponent : Int
deriving DecidableEq, Repr

namespace Decimal

/-- The least number that rounds to infinity in 64 bits. -/
def overflow : Nat :=
  (1 <<< 1024) - (1 <<< 970)

/-- The number has a finite value in 64 bits. The number of its digits settles
    that for all but those of one length. -/
def isFinite (d : Decimal) : Bool :=
  let width := (Nat.toDigits 10 d.digits).length + d.exponent
  if d.digits = 0 || width < 309 then true
  else if 309 < width then false
  else d.digits * Nat.pow 10 d.exponent.toNat < overflow * Nat.pow 10 (-d.exponent).toNat

end Decimal

/-- What a number that is no whole one stands for. -/
inductive Floating where
  | decimal (negative : Bool) (d : Decimal)
  | infinite (negative : Bool)
  | notANumber
deriving DecidableEq, Repr

namespace Floating

/-- A decimal has to stay below infinity in 64 bits. -/
def fits : Floating → Bool
  | decimal _ d => d.isFinite
  | infinite _ | notANumber => true

end Floating

/-- The letter in front of an exponent. -/
def isExponentMark (c : Char) : Bool :=
  c == 'e' || c == 'E'

/-- An exponent behind its letter. -/
def readExponent (cs : List Char) : Option Int :=
  let (negative, digits) := takeSign cs
  (readDigits digits).map fun n => if negative then -(n : Int) else n

/-- The digits in front of an exponent, with a point among them or not. -/
def readMantissa (cs : List Char) : Option Decimal :=
  match splitFirst '.' cs with
  | none => (readDigits cs).map fun n => ⟨n, 0⟩
  | some (whole, fraction) => do
    let n ← readDigits whole
    let m ← readDigits fraction
    return ⟨n * Nat.pow 10 fraction.length + m, -(fraction.length : Int)⟩

/-- A decimal without its sign and without underscores. -/
def readDecimal (cs : List Char) : Option Decimal := do
  let d ← readMantissa (cs.takeWhile (!isExponentMark ·))
  match cs.dropWhile (!isExponentMark ·) with
  | [] => return d
  | _ :: exponent =>
    let e ← readExponent exponent
    return ⟨d.digits, d.exponent + e⟩

/-- The same with underscores, and without a zero in front of other digits. -/
def readGrouped (cs : List Char) : Option Decimal := do
  let plain ← ungroup? Char.isDigit cs
  if hasIdleZero (plain.takeWhile Char.isDigit) then none else readDecimal plain

-- ============================================================================
-- Both
-- ============================================================================

/-- A number as it was read. -/
inductive Number where
  /-- A whole number; none where the text has only the shape of one. -/
  | whole (value : Option Int)
  | floating (x : Floating)
deriving DecidableEq, Repr

namespace Number

/-- There is a value, and it fits its width. -/
def isSound : Number → Bool
  | whole value => value.any fitsWhole
  | floating x => x.fits

end Number

/-- A number. Only decimal ones have a sign. -/
def readNumber : List Char → Option Number
  | '0' :: 'x' :: digits => (readBased 16 digits).map .whole
  | '0' :: 'o' :: digits => (readBased 8 digits).map .whole
  | '0' :: 'b' :: digits => (readBased 2 digits).map .whole
  | cs =>
    let (negative, body) := takeSign cs
    if body = "inf".toList then some (.floating (.infinite negative))
    else if body = "nan".toList then some (.floating .notANumber)
    else if body.any fun c => c == '.' || isExponentMark c then
      (readGrouped body).map fun d => .floating (.decimal negative d)
    else (readWhole negative body).map .whole

end RouterCli.Toml
