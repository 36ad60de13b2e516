import RouterCli.Proofs.Password.Verified

/-!
  RouterCli.Proofs.Password.WellFormed

  What a stored text looks like that a password belongs to. A byte is read from two
  hexadecimal digits, and from a plus sign with one digit behind it, as if the plus
  sign were a zero (`readHex_zeroForPlus`). So a text that a password belongs to is a
  salt and a hash in hexadecimal digits, as the library writes them
  (`isWellFormed_encryptWith`), unless it has plus signs in it
  (`verify_wellFormed_iff`).
-/

namespace RouterCli

-- ============================================================================
-- Reading bytes
-- ============================================================================

namespace Text

variable {high low c : Char} {b : UInt8} {cs : List Char} {bytes : List UInt8}

theorem isHexDigit_plus : isHexDigit '+' = false := by decide

/-- A zero in the place of a plus sign. -/
def zeroForPlus (c : Char) : Char :=
  if c = '+' then '0' else c

theorem zeroForPlus_of_isHexDigit (h : isHexDigit c = true) : zeroForPlus c = c := by
  refine if_neg ?_
  rintro rfl
  rw [isHexDigit_plus] at h
  cases h

theorem isHexDigit_of_hexValue? {n : Nat} (h : hexValue? c = some n) : isHexDigit c = true := by
  rw [isHexDigit, h]
  rfl

/-- A plus sign in front of a digit is read as a zero there. -/
theorem hexByte?_zeroForPlus (h : hexByte? high low = some b) :
    isHexDigit (zeroForPlus high) = true ∧ isHexDigit low = true ∧
      hexByte? (zeroForPlus high) low = some b := by
  by_cases hplus : high = '+'
  · subst hplus
    rw [hexByte?, if_pos rfl, Option.map_eq_some_iff] at h
    obtain ⟨n, hn, rfl⟩ := h
    refine ⟨by decide, isHexDigit_of_hexValue? hn, ?_⟩
    have hzero : hexValue? '0' = some 0 := by decide
    simp [zeroForPlus, hexByte?, hzero, hn]
  · have hsame : zeroForPlus high = high := if_neg hplus
    rw [hsame]
    have hread := h
    rw [hexByte?, if_neg hplus] at hread
    simp only [Option.bind_eq_bind, Option.bind_eq_some_iff] at hread
    obtain ⟨m, hm, n, hn, -⟩ := hread
    exact ⟨isHexDigit_of_hexValue? hm, isHexDigit_of_hexValue? hn, h⟩

theorem length_of_readHex (h : readHex cs = some bytes) : cs.length = 2 * bytes.length := by
  fun_induction readHex cs generalizing bytes with
  | case1 =>
    cases h
    rfl
  | case2 c => cases h
  | case3 high low rest ih =>
    simp only [Option.bind_eq_bind, Option.bind_eq_some_iff] at h
    obtain ⟨b, -, bs, hrest, hbytes⟩ := h
    cases hbytes
    simp only [List.length_cons, ih hrest]
    omega

/-- With zeros for its plus signs a text consists of digits, and it is read as before. -/
theorem readHex_zeroForPlus (h : readHex cs = some bytes) :
    IsRun isHexDigit (cs.map zeroForPlus) ∧ readHex (cs.map zeroForPlus) = some bytes := by
  fun_induction readHex cs generalizing bytes with
  | case1 => exact ⟨isRun_nil, h⟩
  | case2 c => cases h
  | case3 high low rest ih =>
    simp only [Option.bind_eq_bind, Option.bind_eq_some_iff] at h
    obtain ⟨b, hb, bs, hrest, hbytes⟩ := h
    obtain ⟨hhigh, hlow, hbyte⟩ := hexByte?_zeroForPlus hb
    obtain ⟨hrun, hread⟩ := ih hrest
    rw [List.map_cons, List.map_cons, zeroForPlus_of_isHexDigit hlow]
    refine ⟨List.forall_mem_cons.2 ⟨hhigh, List.forall_mem_cons.2 ⟨hlow, hrun⟩⟩, ?_⟩
    rw [readHex, hbyte, hread]
    exact hbytes

/-- What is read as bytes consists of digits where it has no plus sign. -/
theorem isRun_of_readHex (h : readHex cs = some bytes) (hplus : '+' ∉ cs) :
    IsRun isHexDigit cs := by
  have hsame : cs.map zeroForPlus = cs := by
    refine (List.map_congr_left fun c hc => if_neg ?_).trans (List.map_id cs)
    rintro rfl
    exact hplus hc
  rw [← hsame]
  exact (readHex_zeroForPlus h).1

end Text

-- ============================================================================
-- Stored forms
-- ============================================================================

namespace StoredPassword

open Text

/-- A salt and a hash in pairs of hexadecimal digits: the salt has one pair at least,
    and the hash one for each of its bytes. -/
structure IsWritten (saltText hashText : List Char) : Prop where
  salt_ne_nil : saltText ≠ []
  salt_even : saltText.length % 2 = 0
  salt_isRun : IsRun isHexDigit saltText
  hash_length : hashText.length = 64
  hash_isRun : IsRun isHexDigit hashText

/-- A salt and a hash in hexadecimal digits, with one dollar sign between them. -/
def IsWellFormed (stored : String) : Prop :=
  ∃ saltText hashText, stored.toList = saltText ++ '$' :: hashText ∧ IsWritten saltText hashText

/-- The text with a zero for each plus sign. -/
def withZeros (stored : String) : String :=
  String.ofList (stored.toList.map zeroForPlus)

theorem IsWellFormed.plus_notMem {stored : String} (h : IsWellFormed stored) :
    '+' ∉ stored.toList := by
  obtain ⟨saltText, hashText, hwhole, hwritten⟩ := h
  rw [hwhole]
  simp only [List.mem_append, List.mem_cons, not_or]
  exact ⟨hwritten.salt_isRun.notMem isHexDigit_plus, by decide,
    hwritten.hash_isRun.notMem isHexDigit_plus⟩

/-- What the library stores is well-formed. -/
theorem isWellFormed_encryptWith {salt : List UInt8} (h : salt ≠ []) (password : String) :
    IsWellFormed (encryptWith password salt) := by
  refine ⟨hexDigits salt, hexDigits (hash password salt), toList_encryptWith password salt, ?_⟩
  have hpos := List.length_pos_iff.2 h
  constructor
  · rw [← List.length_pos_iff, hexDigits_length]
    omega
  · rw [hexDigits_length]
    omega
  · exact isRun_hexDigits isHexDigit_hexDigit salt
  · rw [hexDigits_length, length_hash]
    rfl
  · exact isRun_hexDigits isHexDigit_hexDigit _

/-- Texts that are read as a salt and a hash are written so, if they consist of digits. -/
theorem isWritten_of_readBytes {saltText hashText : List Char} {salt digest : List UInt8}
    (hsalt : readBytes saltText = some salt) (hdigest : readBytes hashText = some digest)
    (hlength : digest.length = hashLength) (hsaltRun : IsRun isHexDigit saltText)
    (hhashRun : IsRun isHexDigit hashText) : IsWritten saltText hashText := by
  obtain ⟨hne, hsalt⟩ := readBytes_eq_some_iff.1 hsalt
  have hdigest := (readBytes_eq_some_iff.1 hdigest).2
  have hbytes : hashText.length = 2 * hashLength := by rw [length_of_readHex hdigest, hlength]
  have hpairs := length_of_readHex hsalt
  exact ⟨hne, by omega, hsaltRun, hbytes, hhashRun⟩

/-- What comes apart into a salt and a hash is well-formed where it has no plus sign. -/
theorem isWellFormed_of_split? {stored : String} {salt digest : List UInt8}
    (h : split? stored = some (salt, digest)) (hplus : '+' ∉ stored.toList) :
    IsWellFormed stored := by
  obtain ⟨saltText, hashText, hwhole, -, hsalt, hdigest, hlength⟩ := split?_eq_some_iff.1 h
  rw [hwhole] at hplus
  simp only [List.mem_append, List.mem_cons, not_or] at hplus
  exact ⟨saltText, hashText, hwhole, isWritten_of_readBytes hsalt hdigest hlength
    (isRun_of_readHex (readBytes_eq_some_iff.1 hsalt).2 hplus.1)
    (isRun_of_readHex (readBytes_eq_some_iff.1 hdigest).2 hplus.2.2)⟩

theorem readBytes_zeroForPlus {cs : List Char} {bytes : List UInt8}
    (h : readBytes cs = some bytes) : readBytes (cs.map zeroForPlus) = some bytes := by
  obtain ⟨hne, hread⟩ := readBytes_eq_some_iff.1 h
  exact readBytes_eq_some_iff.2 ⟨mt List.map_eq_nil_iff.1 hne, (readHex_zeroForPlus hread).2⟩

/-- Zeros for the plus signs change neither the salt nor the hash. -/
theorem split?_withZeros {stored : String} {salt digest : List UInt8}
    (h : split? stored = some (salt, digest)) :
    split? (withZeros stored) = some (salt, digest) := by
  obtain ⟨saltText, hashText, hwhole, -, hsalt, hdigest, hlength⟩ := split?_eq_some_iff.1 h
  have hchars : (withZeros stored).toList =
      saltText.map zeroForPlus ++ '$' :: hashText.map zeroForPlus := by
    rw [withZeros, hwhole, String.toList_ofList, List.map_append, List.map_cons]
    rfl
  have hrun := (readHex_zeroForPlus (readBytes_eq_some_iff.1 hsalt).2).1
  exact split?_eq_some_iff.2 ⟨_, _, hchars, hrun.notMem (by decide), readBytes_zeroForPlus hsalt,
    readBytes_zeroForPlus hdigest, hlength⟩

theorem plus_notMem_withZeros (stored : String) : '+' ∉ (withZeros stored).toList := by
  rw [withZeros, String.toList_ofList, List.mem_map]
  rintro ⟨c, -, hc⟩
  unfold zeroForPlus at hc
  split_ifs at hc with hplus
  · exact absurd hc (by decide)
  · exact hplus hc

/-- A text that a password belongs to is well-formed if and only if it has no plus sign
    in it. Where it has, the same text with zeros in their places is well-formed, and the
    password belongs to that text too. -/
theorem verify_wellFormed_iff {password stored : String} (h : verify password stored = true) :
    (IsWellFormed stored ↔ '+' ∉ stored.toList) ∧
      IsWellFormed (withZeros stored) ∧ verify password (withZeros stored) = true := by
  obtain ⟨salt, hsplit⟩ := verify_eq_true_iff.1 h
  have hzeros := split?_withZeros hsplit
  exact ⟨⟨IsWellFormed.plus_notMem, isWellFormed_of_split? hsplit⟩,
    isWellFormed_of_split? hzeros (plus_notMem_withZeros stored),
    verify_eq_true_iff.2 ⟨salt, hzeros⟩⟩

/-- The salt `05` may be written `+5`. -/
def plusSalted : String :=
  "+5$36d1717e3b9082e9aeba4ff5a77b8592dcfac82282dccfdd4c6b9959c29935ba"

theorem verify_wellFormed_iff_plusSalted :
    verify "pw" plusSalted = true ∧ (IsWellFormed plusSalted ↔ '+' ∉ plusSalted.toList) ∧
      IsWellFormed (withZeros plusSalted) ∧ verify "pw" (withZeros plusSalted) = true := by
  have hverify : verify "pw" plusSalted = true := by decide +kernel
  exact ⟨hverify, verify_wellFormed_iff hverify⟩

/-- A password belongs to a text that is not well-formed. -/
theorem not_forall_isWellFormed :
    ¬ ∀ password stored : String, verify password stored = true → IsWellFormed stored := by
  intro h
  have hverify : verify "pw" plusSalted = true := by decide +kernel
  have hplus : '+' ∈ plusSalted.toList := by decide +kernel
  exact (h "pw" plusSalted hverify).plus_notMem hplus

end StoredPassword

end RouterCli
