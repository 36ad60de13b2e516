import RouterCli.Text.Blank

/-!
  RouterCli.Text.Hex

  Bytes as lower-case hexadecimal text, two digits a byte, and the reading of
  such text. A byte of the reader is a numeral of base sixteen in two
  characters, so a plus sign and one digit are read as well as two digits.
-/

namespace RouterCli.Text

/-- The lower-case digit of a value below sixteen. -/
def hexDigit (n : Nat) : Char :=
  if n < 10 then Char.ofNat ('0'.toNat + n) else Char.ofNat ('a'.toNat + n - 10)

/-- The value of a hexadecimal digit of either case. -/
def hexValue? (c : Char) : Option Nat :=
  let n := c.toNat
  if '0'.toNat ≤ n ∧ n ≤ '9'.toNat then some (n - '0'.toNat)
  else if 'a'.toNat ≤ n ∧ n ≤ 'f'.toNat then some (n - 'a'.toNat + 10)
  else if 'A'.toNat ≤ n ∧ n ≤ 'F'.toNat then some (n - 'A'.toNat + 10)
  else none

/-- A hexadecimal digit of either case. -/
def isHexDigit (c : Char) : Bool :=
  (hexValue? c).isSome

/-- Two digits for each byte. -/
def hexDigits : List UInt8 → List Char
  | [] => []
  | b :: rest => hexDigit (b.toNat / 16) :: hexDigit (b.toNat % 16) :: hexDigits rest

/-- The bytes as lower-case hexadecimal text. -/
def toHex (bytes : List UInt8) : String :=
  String.ofList (hexDigits bytes)

/-- One byte from two characters: two digits, or a plus sign and one digit. -/
def hexByte? (high low : Char) : Option UInt8 :=
  if high = '+' then (hexValue? low).map UInt8.ofNat
  else do
    let h ← hexValue? high
    let l ← hexValue? low
    return UInt8.ofNat (16 * h + l)

/-- Bytes from pairs of characters; text of odd length is refused. -/
def readHex : List Char → Option (List UInt8)
  | [] => some []
  | [_] => none
  | high :: low :: rest => do
    let b ← hexByte? high low
    let bs ← readHex rest
    return b :: bs

-- ============================================================================
-- Laws
-- ============================================================================

theorem hexValue?_hexDigit : ∀ n < 16, hexValue? (hexDigit n) = some n := by
  decide

theorem hexDigit_ne_plus : ∀ n < 16, hexDigit n ≠ '+' := by
  decide

theorem hexByte?_hexDigit (b : UInt8) :
    hexByte? (hexDigit (b.toNat / 16)) (hexDigit (b.toNat % 16)) = some b := by
  have hb := b.toNat_lt
  have hh : b.toNat / 16 < 16 := by omega
  have hl : b.toNat % 16 < 16 := by omega
  have hsum : 16 * (b.toNat / 16) + b.toNat % 16 = b.toNat := by omega
  simp only [hexByte?, hexDigit_ne_plus _ hh, if_false, hexValue?_hexDigit _ hh,
    hexValue?_hexDigit _ hl]
  change some (UInt8.ofNat (16 * (b.toNat / 16) + b.toNat % 16)) = some b
  rw [hsum, UInt8.ofNat_toNat]

/-- Reading takes back what writing gives. -/
theorem readHex_hexDigits (bytes : List UInt8) : readHex (hexDigits bytes) = some bytes := by
  induction bytes with
  | nil => rfl
  | cons b rest ih => simp [hexDigits, readHex, hexByte?_hexDigit, ih]

theorem hexDigits_length (bytes : List UInt8) :
    (hexDigits bytes).length = 2 * bytes.length := by
  induction bytes with
  | nil => rfl
  | cons b rest ih => simp only [hexDigits, List.length_cons, ih]; omega

end RouterCli.Text
