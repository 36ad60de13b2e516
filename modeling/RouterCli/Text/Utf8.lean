/-
  RouterCli.Text.Utf8

  Text from bytes. The bytes are read left to right into characters and
  ill-formed parts, each part being the longest start of a character that the
  next byte breaks off. The strict reading refuses any such part; the lossy
  one writes U+FFFD for it.
-/

namespace RouterCli.Text

/-- A character begun: bytes still owed, the bounds of the next one, and the
    bits read so far. -/
structure PendingChar where
  /-- Continuation bytes still to come. -/
  owed : Nat
  /-- Least value of the next byte. -/
  low : Nat
  /-- Greatest value of the next byte. -/
  high : Nat
  /-- Value of the bits read so far. -/
  bits : Nat
deriving Repr, DecidableEq

/-- What the first byte of a character says about the rest of it. -/
inductive LeadByte where
  | single (c : Char)
  | start (pending : PendingChar)
  | illFormed
deriving Repr, DecidableEq

/-- Read a byte where a character may start. The narrow bounds after E0, ED,
    F0 and F4 exclude overlong forms, surrogates and values past U+10FFFF. -/
def leadByte (b : Nat) : LeadByte :=
  if b < 0x80 then .single (Char.ofNat b)
  else if b < 0xC2 then .illFormed
  else if b < 0xE0 then .start ⟨1, 0x80, 0xBF, b - 0xC0⟩
  else if b = 0xE0 then .start ⟨2, 0xA0, 0xBF, 0⟩
  else if b = 0xED then .start ⟨2, 0x80, 0x9F, 0xD⟩
  else if b < 0xF0 then .start ⟨2, 0x80, 0xBF, b - 0xE0⟩
  else if b = 0xF0 then .start ⟨3, 0x90, 0xBF, 0⟩
  else if b < 0xF4 then .start ⟨3, 0x80, 0xBF, b - 0xF0⟩
  else if b = 0xF4 then .start ⟨3, 0x80, 0x8F, 4⟩
  else .illFormed

/-- The characters of a byte sequence, with `none` for each ill-formed part. -/
def decodeFrom : Option PendingChar → List UInt8 → List (Option Char)
  | none, [] => []
  | some _, [] => [none]
  | none, b :: rest =>
    match leadByte b.toNat with
    | .single c => some c :: decodeFrom none rest
    | .start p => decodeFrom (some p) rest
    | .illFormed => none :: decodeFrom none rest
  | some p, b :: rest =>
    if p.low ≤ b.toNat ∧ b.toNat ≤ p.high then
      let bits := 64 * p.bits + (b.toNat - 0x80)
      if p.owed ≤ 1 then some (Char.ofNat bits) :: decodeFrom none rest
      else decodeFrom (some ⟨p.owed - 1, 0x80, 0xBF, bits⟩) rest
    else
      match leadByte b.toNat with
      | .single c => none :: some c :: decodeFrom none rest
      | .start q => none :: decodeFrom (some q) rest
      | .illFormed => none :: none :: decodeFrom none rest

/-- The text of well-formed bytes. -/
def decode? (bytes : List UInt8) : Option String :=
  ((decodeFrom none bytes).mapM id).map String.ofList

/-- The text of any bytes, with U+FFFD for each ill-formed part. -/
def decodeLossy (bytes : List UInt8) : String :=
  String.ofList ((decodeFrom none bytes).map (·.getD (Char.ofNat 0xFFFD)))

/-- The bytes of a text. -/
def encode (s : String) : List UInt8 :=
  s.toUTF8.toList

end RouterCli.Text
