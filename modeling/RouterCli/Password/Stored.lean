import RouterCli.Password.Sha256
import RouterCli.Text.Hex
import RouterCli.Text.Utf8

/-!
  RouterCli.Password.Stored

  Passwords in the form they are stored in: a salt and a hash in hexadecimal
  digits with a dollar sign between them. The hash is taken over the salt
  followed by the password.
-/

namespace RouterCli

/-- How many bytes a fresh salt has. -/
def saltLength : Nat := 16

/-- A fresh salt. -/
structure Salt where
  bytes : List UInt8
  length_eq : bytes.length = saltLength

/-- Where fresh salts come from. Each draw may fail. -/
structure SaltSupply where
  /-- The outcome of each draw. -/
  draw : Nat → Option Salt
  drawn : Nat := 0

namespace SaltSupply

/-- Draw a salt. -/
def next (s : SaltSupply) : Option Salt × SaltSupply :=
  (s.draw s.drawn, { s with drawn := s.drawn + 1 })

/-- Bytes as salts, one behind the other, as far as they go. -/
def ofBytes (bytes : List UInt8) : SaltSupply where
  draw n :=
    let part := (bytes.drop (saltLength * n)).take saltLength
    if h : part.length = saltLength then some ⟨part, h⟩ else none

end SaltSupply

/-- Why a password could not be encrypted. -/
inductive EncryptionError where
  | noEntropy
deriving DecidableEq, Repr

namespace EncryptionError

/-- The words for an error. -/
def message : EncryptionError → String
  | noEntropy => "no entropy available for password salt"

end EncryptionError

namespace StoredPassword

open Text

/-- How many bytes a hash has. -/
def hashLength : Nat := 32

/-- The hash of a password under a salt. -/
def hash (password : String) (salt : List UInt8) : List UInt8 :=
  Sha256.hash (salt ++ encode password)

/-- The stored form of a password under a salt. -/
def encryptWith (password : String) (salt : List UInt8) : String :=
  toHex salt ++ "$" ++ toHex (hash password salt)

/-- The bytes of a non-empty hexadecimal text. -/
def readBytes (cs : List Char) : Option (List UInt8) :=
  if cs.isEmpty then none else readHex cs

/-- The salt and the hash of a stored form. -/
def split? (stored : String) : Option (List UInt8 × List UInt8) := do
  let (saltText, hashText) ← splitFirst '$' stored.toList
  let salt ← readBytes saltText
  let hash ← readBytes hashText
  guard (hash.length = hashLength)
  return (salt, hash)

/-- The password belongs to the stored form. A malformed form belongs to no
    password. -/
def verify (password stored : String) : Bool :=
  match split? stored with
  | some (salt, expected) => hash password salt == expected
  | none => false

/-- The stored form of a password under a fresh salt. -/
def encrypt (password : String) (salts : SaltSupply) :
    Except EncryptionError String × SaltSupply :=
  match salts.next with
  | (some salt, salts) => (.ok (encryptWith password salt.bytes), salts)
  | (none, salts) => (.error .noEntropy, salts)

end StoredPassword

end RouterCli
