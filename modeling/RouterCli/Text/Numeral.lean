import RouterCli.Text.Blank

/-!
  RouterCli.Text.Numeral

  Decimal numerals as a user types them: ASCII digits with an optional sign
  and nothing around them. A reader takes the largest value it may return,
  so that a numeral too big for its machine word is refused rather than cut.
-/

namespace RouterCli.Text

/-- The value of one ASCII digit. -/
def digitValue (c : Char) : Nat :=
  c.toNat - '0'.toNat

/-- The value of a run of digits, read from the left; an empty run is zero. -/
def decimalValue (ds : List Char) : Nat :=
  ds.foldl (fun n d => 10 * n + digitValue d) 0

/-- A non-empty run of ASCII digits, as a number. -/
def readDigits (cs : List Char) : Option Nat :=
  if cs.isEmpty || !cs.all Char.isDigit then none else some (decimalValue cs)

/-- The text without one leading plus sign. -/
def dropPlus : List Char → List Char
  | '+' :: rest => rest
  | cs => cs

/-- An unsigned numeral of at most `limit`; a plus sign may stand in front. -/
def readUnsigned (limit : Nat) (cs : List Char) : Option Nat :=
  (readDigits (dropPlus cs)).filter (· ≤ limit)

/-- A signed numeral from `-(limit + 1)` to `limit`; either sign may stand in
    front. -/
def readSigned (limit : Nat) : List Char → Option Int
  | '-' :: rest => ((readDigits rest).filter (· ≤ limit + 1)).map fun n => -(n : Int)
  | cs => (readUnsigned limit cs).map Int.ofNat

/-- The largest value of an unsigned word of `bits` bits. -/
def maxUnsigned (bits : Nat) : Nat :=
  (1 <<< bits) - 1

/-- The largest value of a signed word of `bits` bits. -/
def maxSigned (bits : Nat) : Nat :=
  (1 <<< (bits - 1)) - 1

/-- Read an unsigned numeral of `bits` bits. -/
def unsigned? (bits : Nat) (s : String) : Option Nat :=
  readUnsigned (maxUnsigned bits) s.toList

-- ============================================================================
-- Laws
-- ============================================================================

theorem readUnsigned_le {limit n : Nat} {cs : List Char}
    (h : readUnsigned limit cs = some n) : n ≤ limit := by
  simp only [readUnsigned, Option.filter_eq_some_iff, decide_eq_true_eq] at h
  exact h.2

theorem readDigits_eq_some_iff {cs : List Char} {n : Nat} :
    readDigits cs = some n ↔
      cs ≠ [] ∧ (∀ c ∈ cs, c.isDigit = true) ∧ decimalValue cs = n := by
  unfold readDigits
  split
  · rename_i h
    simp only [Bool.or_eq_true, List.isEmpty_iff, Bool.not_eq_true', List.all_eq_false] at h
    constructor
    · simp
    · rintro ⟨hne, hall, -⟩
      rcases h with h | ⟨c, hc, hd⟩
      · exact absurd h hne
      · exact absurd (hall c hc) hd
  · rename_i h
    simp only [Bool.or_eq_true, List.isEmpty_iff, Bool.not_eq_true', List.all_eq_false,
      not_or, not_exists, not_and, Decidable.not_not] at h
    simp only [Option.some.injEq]
    exact ⟨fun hn => ⟨h.1, h.2, hn⟩, fun hn => hn.2.2⟩

theorem isDigit_of_mem_toString {n : Nat} {c : Char} (h : c ∈ (toString n).toList) :
    c.isDigit = true := by
  rw [Nat.toString_eq_ofList_toDigits, String.toList_ofList] at h
  exact Nat.isDigit_of_mem_toDigits (by decide) (by decide) h

/-- A number is read back from its decimal digits. -/
theorem readDigits_toString (n : Nat) : readDigits (toString n).toList = some n := by
  refine readDigits_eq_some_iff.2 ⟨?_, fun c hc => isDigit_of_mem_toString hc, ?_⟩
  · rw [Nat.toString_eq_ofList_toDigits, String.toList_ofList]
    exact Nat.toDigits_ne_nil
  · rw [Nat.toString_eq_ofList_toDigits, String.toList_ofList]
    exact Nat.ofDigitChars_ten_toDigits

theorem readUnsigned_toString {limit n : Nat} (h : n ≤ limit) :
    readUnsigned limit (toString n).toList = some n := by
  have hplus : dropPlus (toString n).toList = (toString n).toList := by
    cases hn : (toString n).toList with
    | nil => rfl
    | cons c rest =>
      have hmem : c ∈ (toString n).toList := by
        rw [hn]
        exact List.mem_cons_self
      have hdigit := isDigit_of_mem_toString hmem
      unfold dropPlus
      split
      · rename_i heq
        rw [(List.cons.inj heq).1] at hdigit
        exact absurd hdigit (by decide)
      · rfl
  rw [readUnsigned, hplus, readDigits_toString]
  simp [h]

end RouterCli.Text
