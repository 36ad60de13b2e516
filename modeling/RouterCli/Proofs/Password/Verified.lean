import Mathlib.Data.Option.Basic
import RouterCli.Password.Stored
import RouterCli.Proofs.Text.Runs

/-!
  RouterCli.Proofs.Password.Verified

  The stored form of a password comes apart again into the salt and the hash that it
  was made of (`split?_encryptWith`), so the password it was made of belongs to it
  (`verify_of_encrypt`), and another one does if and only if it has the same hash
  under the salt (`verify_encryptWith_iff`).
-/

namespace RouterCli

namespace Text

theorem isHexDigit_hexDigit : ∀ n < 16, isHexDigit (hexDigit n) = true := by
  decide

/-- Written bytes are of each class that the sixteen digits are of. -/
theorem isRun_hexDigits {p : Char → Bool} (hp : ∀ n < 16, p (hexDigit n) = true)
    (bytes : List UInt8) : IsRun p (hexDigits bytes) := by
  induction bytes with
  | nil => exact isRun_nil
  | cons b rest ih =>
    have hb := b.toNat_lt
    have hhigh : p (hexDigit (b.toNat / 16)) = true := hp _ (by omega)
    have hlow : p (hexDigit (b.toNat % 16)) = true := hp _ (by omega)
    exact List.forall_mem_cons.2 ⟨hhigh, List.forall_mem_cons.2 ⟨hlow, ih⟩⟩

theorem dollar_notMem_hexDigits (bytes : List UInt8) : '$' ∉ hexDigits bytes :=
  (isRun_hexDigits isHexDigit_hexDigit bytes).notMem (by decide)

end Text

theorem Salt.ne_nil (salt : Salt) : salt.bytes ≠ [] := by
  rw [← List.length_pos_iff, salt.length_eq]
  decide

namespace StoredPassword

open Text

theorem readBytes_eq_some_iff {cs : List Char} {bytes : List UInt8} :
    readBytes cs = some bytes ↔ cs ≠ [] ∧ readHex cs = some bytes := by
  cases cs <;> simp [readBytes]

theorem readBytes_hexDigits {bytes : List UInt8} (h : bytes ≠ []) :
    readBytes (hexDigits bytes) = some bytes := by
  refine readBytes_eq_some_iff.2 ⟨?_, readHex_hexDigits bytes⟩
  rw [← List.length_pos_iff, hexDigits_length]
  have hpos := List.length_pos_iff.2 h
  omega

/-- A stored form is two texts of bytes with the first dollar sign between them. -/
theorem split?_eq_some_iff {stored : String} {salt digest : List UInt8} :
    split? stored = some (salt, digest) ↔
      ∃ saltText hashText, stored.toList = saltText ++ '$' :: hashText ∧ '$' ∉ saltText ∧
        readBytes saltText = some salt ∧ readBytes hashText = some digest ∧
        digest.length = hashLength := by
  unfold split?
  simp only [Option.bind_eq_bind, Option.bind_eq_some_iff, Option.guard_eq_some', Prod.exists,
    Option.pure_def, Option.some.injEq, Prod.mk.injEq]
  constructor
  · rintro ⟨saltText, hashText, hsplit, salt, hsalt, digest, hdigest, -, hlength, rfl, rfl⟩
    obtain ⟨hwhole, hdollar⟩ := splitFirst_eq_some hsplit
    exact ⟨saltText, hashText, hwhole, hdollar, hsalt, hdigest, hlength⟩
  · rintro ⟨saltText, hashText, hwhole, hdollar, hsalt, hdigest, hlength⟩
    have hsplit : splitFirst '$' stored.toList = some (saltText, hashText) := by
      rw [hwhole]
      exact splitFirst_append hdollar hashText
    exact ⟨saltText, hashText, hsplit, salt, hsalt, digest, hdigest, (), hlength, rfl, rfl⟩

theorem length_hash (password : String) (salt : List UInt8) :
    (hash password salt).length = hashLength := Sha256.length_hash _

theorem toList_encryptWith (password : String) (salt : List UInt8) :
    (encryptWith password salt).toList =
      hexDigits salt ++ '$' :: hexDigits (hash password salt) := by
  simp [encryptWith, toHex]

/-- A stored form holds the salt and the hash that it was made of. -/
theorem split?_encryptWith {salt : List UInt8} (h : salt ≠ []) (password : String) :
    split? (encryptWith password salt) = some (salt, hash password salt) := by
  have hne : hash password salt ≠ [] := by
    rw [← List.length_pos_iff, length_hash]
    decide
  exact split?_eq_some_iff.2
    ⟨hexDigits salt, hexDigits (hash password salt), toList_encryptWith password salt,
      dollar_notMem_hexDigits salt, readBytes_hexDigits h, readBytes_hexDigits hne,
      length_hash password salt⟩

/-- A password belongs to the stored forms that hold its hash under their salt. -/
theorem verify_eq_true_iff {password stored : String} :
    verify password stored = true ↔ ∃ salt, split? stored = some (salt, hash password salt) := by
  unfold verify
  cases hsplit : split? stored with
  | none => simp
  | some held =>
    obtain ⟨salt, digest⟩ := held
    simp only [beq_iff_eq, Option.some.injEq, Prod.mk.injEq]
    constructor
    · rintro rfl
      exact ⟨salt, rfl, rfl⟩
    · rintro ⟨_, rfl, h⟩
      exact h.symm

/-- The password that a stored form was made of belongs to it. -/
theorem verify_encryptWith {salt : List UInt8} (h : salt ≠ []) (password : String) :
    verify password (encryptWith password salt) = true :=
  verify_eq_true_iff.2 ⟨salt, split?_encryptWith h password⟩

/-- The password that a stored form was made of belongs to it, and of the others those
    with the same hash under the salt. -/
theorem verify_encryptWith_iff {salt : List UInt8} (h : salt ≠ []) (password other : String) :
    verify password (encryptWith password salt) = true ∧
      (verify other (encryptWith password salt) = true ↔
        Sha256.hash (salt ++ encode other) = Sha256.hash (salt ++ encode password)) := by
  refine ⟨verify_encryptWith h password, ?_⟩
  rw [verify_eq_true_iff, split?_encryptWith h]
  constructor
  · rintro ⟨_, hheld⟩
    obtain ⟨rfl, hsame⟩ := Prod.mk.inj (Option.some.inj hheld)
    exact hsame.symm
  · intro hsame
    have hhash : hash password salt = hash other salt := hsame.symm
    exact ⟨salt, by rw [hhash]⟩

/-- A dollar sign in a password does not end it. -/
theorem verify_encryptWith_iff_dollar :
    [0xab] ≠ ([] : List UInt8) ∧
      verify "ze$bra" (encryptWith "ze$bra" [0xab]) = true ∧
      verify "ze" (encryptWith "ze$bra" [0xab]) = false ∧
      (verify "ze" (encryptWith "ze$bra" [0xab]) = true ↔
        Sha256.hash ([0xab] ++ encode "ze") = Sha256.hash ([0xab] ++ encode "ze$bra")) := by
  have hsalt : [0xab] ≠ ([] : List UInt8) := by decide
  have hiff := verify_encryptWith_iff hsalt "ze$bra" "ze"
  exact ⟨hsalt, hiff.1, by decide +kernel, hiff.2⟩

theorem exists_salt_of_encrypt {password stored : String} {salts salts' : SaltSupply}
    (h : encrypt password salts = (.ok stored, salts')) :
    ∃ salt, salts.next = (some salt, salts') ∧ stored = encryptWith password salt.bytes := by
  unfold encrypt at h
  split at h
  · rename_i salt rest hnext
    cases h
    exact ⟨salt, hnext, rfl⟩
  · cases h

theorem verify_of_encrypt {password stored : String} {salts salts' : SaltSupply}
    (h : encrypt password salts = (.ok stored, salts')) : verify password stored = true := by
  obtain ⟨salt, -, rfl⟩ := exists_salt_of_encrypt h
  exact verify_encryptWith salt.ne_nil password

end StoredPassword

end RouterCli
