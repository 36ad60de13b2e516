import Mathlib.Data.Int.Order.Basic
import Mathlib.Data.Option.Basic
import Mathlib.Data.String.Basic
import RouterCli.Matching.Classify
import RouterCli.Proofs.Text.Runs

/-!
  RouterCli.Proofs.Pattern.Ranges

  Ranges in patterns against plain integers. Reading a numeral of 64 bits comes to its value
  where that fits (`Text.readUnsigned_eq_some_iff`, `Text.readSigned_eq_some_iff`), and the
  bounds of a range, with ten characters at most, always fit (`Range.parse?_written`). So the
  words that a range takes are the numerals whose value lies between the bounds
  (`Token.classify_written_iff`). Reading the bounds with machine words, where a negation can
  overflow, never does, whatever the text (`WordRange.parse_reads`).
-/

namespace RouterCli

-- ============================================================================
-- Numerals
-- ============================================================================

namespace Text

/-- What may stand in front of the digits of a numeral. -/
inductive Sign where
  | absent
  | plus
  | minus
deriving DecidableEq, Repr

namespace Sign

/-- How the sign is written. -/
def text : Sign → List Char
  | absent => []
  | plus => ['+']
  | minus => ['-']

/-- What the digits are worth behind the sign. -/
def apply : Sign → Nat → Int
  | minus, n => -(n : Int)
  | absent, n | plus, n => n

theorem apply_of_ne {sign : Sign} (h : sign ≠ .minus) (n : Nat) : sign.apply n = n := by
  cases sign with
  | absent | plus => rfl
  | minus => exact absurd rfl h

end Sign

/-- The characters are a decimal numeral with this sign, and of this value. -/
def IsNumeral (sign : Sign) (cs : List Char) (n : Int) : Prop :=
  ∃ digits, digits ≠ [] ∧ IsRun Char.isDigit digits ∧ cs = sign.text ++ digits ∧
    n = sign.apply (decimalValue digits)

section Numerals

variable {limit : Nat} {cs digits : List Char} {n : Int}

theorem dropPlus_of_isRun (h : IsRun Char.isDigit digits) : dropPlus digits = digits := by
  unfold dropPlus
  split
  · exact absurd (h '+' List.mem_cons_self) (by decide)
  · rfl

theorem eq_append_dropPlus (cs : List Char) :
    ∃ sign : Sign, sign ≠ .minus ∧ cs = sign.text ++ dropPlus cs := by
  unfold dropPlus
  split
  · exact ⟨.plus, by decide, rfl⟩
  · exact ⟨.absent, by decide, rfl⟩

theorem readUnsigned_eq_some_iff {n : Nat} :
    readUnsigned limit cs = some n ↔
      n ≤ limit ∧ ∃ sign, sign ≠ .minus ∧ IsNumeral sign cs n := by
  rw [readUnsigned, Option.filter_eq_some_iff, decide_eq_true_iff, and_comm]
  refine and_congr_right fun _ => ?_
  constructor
  · intro hread
    obtain ⟨hne, hrun, hvalue⟩ := readDigits_eq_some_iff.1 hread
    obtain ⟨sign, hsign, hcs⟩ := eq_append_dropPlus cs
    refine ⟨sign, hsign, _, hne, hrun, hcs, ?_⟩
    rw [Sign.apply_of_ne hsign, hvalue]
  · rintro ⟨sign, hsign, digits, hne, hrun, rfl, hvalue⟩
    rw [Sign.apply_of_ne hsign, Int.ofNat_inj] at hvalue
    have hread : readDigits digits = some n := readDigits_eq_some_iff.2 ⟨hne, hrun, hvalue.symm⟩
    cases sign with
    | absent => exact (congrArg readDigits (dropPlus_of_isRun hrun)).trans hread
    | plus => exact hread
    | minus => exact absurd rfl hsign

theorem readSigned_minus (rest : List Char) :
    readSigned limit ('-' :: rest) =
      ((readDigits rest).filter (· ≤ limit + 1)).map fun n : Nat => -(n : Int) := by
  rw [readSigned]
  cases (readDigits rest).filter (· ≤ limit + 1) <;> rfl

theorem readSigned_of_ne (h : cs.head? ≠ some '-') :
    readSigned limit cs = (readUnsigned limit cs).map Int.ofNat := by
  unfold readSigned
  split
  · exact absurd rfl h
  · rfl

/-- Only a numeral with a minus sign starts with that. -/
theorem head?_of_isNumeral {sign : Sign} (h : IsNumeral sign cs n) :
    cs.head? = some '-' ↔ sign = .minus := by
  obtain ⟨digits, hne, hrun, rfl, -⟩ := h
  cases sign with
  | absent =>
    obtain ⟨d, ds, rfl⟩ := List.exists_cons_of_ne_nil hne
    have hd : d ≠ '-' := by
      rintro rfl
      exact absurd (hrun '-' List.mem_cons_self) (by decide)
    simp [Sign.text, hd]
  | plus | minus => simp [Sign.text]

theorem readUnsigned_minus (rest : List Char) : readUnsigned limit ('-' :: rest) = none := by
  rw [Option.eq_none_iff_forall_ne_some]
  intro n hread
  obtain ⟨-, sign, hsign, hnumeral⟩ := readUnsigned_eq_some_iff.1 hread
  exact hsign ((head?_of_isNumeral hnumeral).1 rfl)

theorem readSigned_eq_some_iff :
    readSigned limit cs = some n ↔
      (-(limit + 1 : Int) ≤ n ∧ n ≤ limit) ∧ ∃ sign, IsNumeral sign cs n := by
  by_cases hminus : cs.head? = some '-'
  · obtain ⟨rest, rfl⟩ := List.head?_eq_some_iff.1 hminus
    rw [readSigned_minus]
    simp only [Option.map_eq_some_iff, Option.filter_eq_some_iff, decide_eq_true_eq,
      readDigits_eq_some_iff]
    constructor
    · rintro ⟨m, ⟨⟨hne, hrun, hvalue⟩, hle⟩, rfl⟩
      exact ⟨by omega, .minus, rest, hne, hrun, rfl, by rw [hvalue]; rfl⟩
    · rintro ⟨hbounds, sign, hnumeral⟩
      obtain rfl := (head?_of_isNumeral hnumeral).1 rfl
      obtain ⟨digits, hne, hrun, hcs, rfl⟩ := hnumeral
      obtain rfl : rest = digits := List.tail_eq_of_cons_eq hcs
      rw [Sign.apply] at hbounds
      exact ⟨decimalValue rest, ⟨⟨hne, hrun, rfl⟩, by omega⟩, rfl⟩
  · rw [readSigned_of_ne hminus]
    simp only [Option.map_eq_some_iff, readUnsigned_eq_some_iff]
    constructor
    · rintro ⟨m, ⟨hle, sign, -, hnumeral⟩, rfl⟩
      exact ⟨⟨by simp; omega, Int.ofNat_le.2 hle⟩, sign, hnumeral⟩
    · rintro ⟨hbounds, sign, hnumeral⟩
      have hsign : sign ≠ .minus := mt (head?_of_isNumeral hnumeral).2 hminus
      obtain ⟨m, rfl⟩ : ∃ m : Nat, n = m := by
        obtain ⟨digits, -, -, -, rfl⟩ := hnumeral
        exact ⟨_, Sign.apply_of_ne hsign _⟩
      exact ⟨m, ⟨Int.ofNat_le.1 hbounds.2, sign, hsign, hnumeral⟩, rfl⟩

/-- The sign of a number as it is written without need. -/
def signOf (n : Int) : Sign :=
  if n < 0 then .minus else .absent

theorem isRun_toString (n : Nat) : IsRun Char.isDigit (toString n).toList :=
  fun _ => isDigit_of_mem_toString

theorem signOf_negSucc (m : Nat) : signOf (.negSucc m) = .minus :=
  if_pos (Int.negSucc_lt_zero m)

theorem toList_toString (n : Int) :
    (toString n).toList = (signOf n).text ++ (toString n.natAbs).toList := by
  cases n with
  | ofNat m => rfl
  | negSucc m =>
    rw [signOf_negSucc]
    exact String.toList_append

theorem apply_signOf (n : Int) : (signOf n).apply n.natAbs = n := by
  cases n with
  | ofNat m => rfl
  | negSucc m =>
    rw [signOf_negSucc]
    rfl

theorem isNumeral_toString (n : Int) : IsNumeral (signOf n) (toString n).toList n := by
  obtain ⟨hne, hrun, hvalue⟩ := readDigits_eq_some_iff.1 (readDigits_toString n.natAbs)
  exact ⟨_, hne, hrun, toList_toString n, by rw [hvalue, apply_signOf]⟩

/-- A digit is worth less than ten. -/
theorem digitValue_lt {c : Char} (hc : c.isDigit = true) : digitValue c < 10 := by
  obtain ⟨-, hle⟩ := Char.isDigit_iff_toNat.1 hc
  have hspan : '9'.toNat - '0'.toNat < 10 := by decide
  exact Nat.lt_of_le_of_lt (Nat.sub_le_sub_right hle _) hspan

theorem decimalValue_lt {ds : List Char} (h : IsRun Char.isDigit ds) :
    decimalValue ds < 10 ^ ds.length := by
  induction ds using List.reverseRecOn with
  | nil => exact Nat.one_pos
  | append_singleton ds d ih =>
    have hds := ih (h.of_prefix (List.prefix_append ds [d]))
    have hd := digitValue_lt (h d (by simp))
    rw [decimalValue_concat, List.length_append, List.length_singleton, Nat.pow_succ]
    omega

/-- Numbers of few digits are small. -/
theorem lt_of_length_toString_le {n digits : Nat} (h : (toString n).length ≤ digits) :
    n < 10 ^ digits := by
  obtain ⟨-, hrun, hvalue⟩ := readDigits_eq_some_iff.1 (readDigits_toString n)
  have hlt := decimalValue_lt hrun
  rw [hvalue, String.length_toList] at hlt
  exact Nat.lt_of_lt_of_le hlt (Nat.pow_le_pow_right (by decide) h)

end Numerals

end Text

open Text

-- ============================================================================
-- Words within bounds
-- ============================================================================

/-- The word is a decimal numeral with one of the signs, whose value is within the bounds. -/
def IsNumeralWithin (signs : List Sign) (low high : Int) (word : String) : Prop :=
  ∃ sign ∈ signs, ∃ n, IsNumeral sign word.toList n ∧ low ≤ n ∧ n ≤ high

namespace Range

theorem accepts_unsigned_iff {low high : Nat} (h : high ≤ maxUnsigned 64) (word : String) :
    (Range.unsigned low high).accepts word = true ↔
      IsNumeralWithin [.absent, .plus] low high word := by
  simp only [accepts, Option.any_eq_true, Bool.and_eq_true, decide_eq_true_eq,
    readUnsigned_eq_some_iff]
  constructor
  · rintro ⟨n, ⟨-, sign, hsign, hnumeral⟩, hlow, hhigh⟩
    refine ⟨sign, ?_, n, hnumeral, Int.ofNat_le.2 hlow, Int.ofNat_le.2 hhigh⟩
    cases sign <;> simp_all
  · rintro ⟨sign, hmem, n, hnumeral, hlow, hhigh⟩
    obtain ⟨m, rfl⟩ := Int.eq_ofNat_of_zero_le (Int.le_trans (Int.natCast_nonneg low) hlow)
    have hsign : sign ≠ .minus := by
      rintro rfl
      simp at hmem
    exact ⟨m, ⟨Nat.le_trans (Int.ofNat_le.1 hhigh) h, sign, hsign, hnumeral⟩,
      Int.ofNat_le.1 hlow, Int.ofNat_le.1 hhigh⟩

theorem accepts_signed_iff {low high : Int} (hlow : -(maxSigned 64 + 1 : Int) ≤ low)
    (hhigh : high ≤ maxSigned 64) (word : String) :
    (Range.signed low high).accepts word = true ↔
      IsNumeralWithin [.absent, .plus, .minus] low high word := by
  simp only [accepts, Option.any_eq_true, Bool.and_eq_true, decide_eq_true_eq,
    readSigned_eq_some_iff]
  constructor
  · rintro ⟨n, ⟨-, sign, hnumeral⟩, hwithin⟩
    exact ⟨sign, by cases sign <;> simp, n, hnumeral, hwithin⟩
  · rintro ⟨sign, -, n, hnumeral, hwithin⟩
    exact ⟨n, ⟨⟨Int.le_trans hlow hwithin.1, Int.le_trans hwithin.2 hhigh⟩, sign, hnumeral⟩,
      hwithin⟩

end Range

-- ============================================================================
-- Ranges as they are written
-- ============================================================================

/-- A range as a pattern writes it. -/
def writtenRange (low high : Int) : String :=
  "<" ++ toString low ++ "-" ++ toString high ++ ">"

section Written

variable {low high : Int} {n : Nat}

theorem toList_writtenRange (low high : Int) :
    (writtenRange low high).toList =
      '<' :: ((toString low).toList ++ '-' :: (toString high).toList ++ '>' :: []) := by
  simp [writtenRange]

theorem utf8Size_of_isDigit {c : Char} (h : c.isDigit = true) : c.utf8Size = 1 := by
  obtain ⟨-, hle⟩ := Char.isDigit_iff_toNat.1 h
  exact Char.utf8Size_eq_one_iff.2 (UInt32.le_iff_toNat_le.2 (Nat.le_trans hle (by decide)))

theorem utf8Len_of_isRun {digits : List Char} (h : IsRun Char.isDigit digits) :
    String.utf8Len digits = digits.length := by
  induction digits with
  | nil => rfl
  | cons c rest ih =>
    obtain ⟨hc, hrest⟩ := List.forall_mem_cons.1 h
    rw [String.utf8Len_cons, ih hrest, utf8Size_of_isDigit hc, List.length_cons]

/-- A bound fits if its text has ten characters at most, which are all of one byte. -/
theorem boundFits_toString (n : Int) :
    Range.boundFits (toString n).toList = decide ((toString n).length ≤ 10) := by
  have hsign : String.utf8Len (signOf n).text = (signOf n).text.length := by
    unfold signOf
    split <;> rfl
  have hbytes : (toString n).utf8ByteSize = (toString n).length := by
    rw [← String.ofList_toList (s := toString n), String.utf8ByteSize_ofList,
      String.length_ofList, toList_toString, String.utf8Len_append, hsign,
      utf8Len_of_isRun (isRun_toString _), List.length_append]
  rw [Range.boundFits, String.ofList_toList, hbytes]
  rfl

/-- Numbers of ten digits at most are words of 64 bits. -/
theorem natAbs_le_of_length_le {n : Int} (h : (toString n.natAbs).length ≤ 10) :
    n.natAbs ≤ maxSigned 64 := by
  have hlt := lt_of_length_toString_le h
  have hword : 10 ^ 10 ≤ maxSigned 64 := by decide
  omega

theorem length_toString_natAbs_le (n : Int) :
    (toString n.natAbs).length ≤ (toString n).length := by
  rw [← String.length_toList, ← String.length_toList, toList_toString n, List.length_append]
  omega

theorem close_notMem_toString (n : Int) : '>' ∉ (toString n).toList := by
  rw [toList_toString, List.mem_append, not_or]
  refine ⟨?_, (isRun_toString _).notMem rfl⟩
  unfold signOf
  split <;> decide

theorem toList_toString_of_nonneg {n : Int} (h : ¬n < 0) :
    (toString n).toList = (toString n.natAbs).toList := by
  rw [toList_toString, signOf, if_neg h]
  rfl

theorem toList_toString_of_neg {n : Int} (h : n < 0) :
    (toString n).toList = '-' :: (toString n.natAbs).toList := by
  rw [toList_toString, signOf, if_pos h]
  rfl

end Written

namespace Range

section Bounds

variable {low high : List Char}

theorem ofBounds?_signed (hlow : '-' ∉ low) (hfits : (boundFits low && boundFits high) = true) :
    ofBounds? ('-' :: (low ++ '-' :: high)) =
      (readSigned (maxSigned 64) low).bind fun min =>
        (readSigned (maxSigned 64) high).bind fun max => some (.signed (-min) max) := by
  rw [ofBounds?, splitFirst_append hlow]
  simp only [Option.bind_eq_bind, Option.bind_some, hfits, guard_true, Option.pure_def]

theorem ofBounds?_unsigned (hlow : '-' ∉ low) (hne : low ≠ [])
    (hfits : (boundFits low && boundFits high) = true) :
    ofBounds? (low ++ '-' :: high) =
      (readUnsigned (maxUnsigned 64) low).bind fun min =>
        (readUnsigned (maxUnsigned 64) high).bind fun max => some (.unsigned min max) := by
  have hhead (rest : List Char) : low ++ '-' :: high ≠ '-' :: rest := by
    intro heq
    obtain ⟨c, cs, rfl⟩ := List.exists_cons_of_ne_nil hne
    obtain ⟨rfl, -⟩ := List.cons.inj heq
    exact hlow List.mem_cons_self
  rw [ofBounds?.eq_2 _ hhead, splitFirst_append hlow]
  simp only [Option.bind_eq_bind, Option.bind_some, hfits, guard_true, Option.pure_def]

theorem parse?_of_toList {text : String} {bounds behind : List Char} (h : '>' ∉ bounds)
    (htext : text.toList = '<' :: (bounds ++ '>' :: behind)) : parse? text = ofBounds? bounds := by
  rw [parse?, htext]
  simp [splitFirst_append h]

end Bounds

theorem parse?_of_ne {text : String} (h : ∀ body, text.toList ≠ '<' :: body) :
    parse? text = none := by
  unfold parse?
  split
  · exact absurd ‹_› (h _)
  · rfl

/-- Reading the bounds of a written range. A range without a minus sign in front has an unsigned
    upper bound. -/
theorem parse?_written {low high : Int} (hlow : (toString low.natAbs).length ≤ 10)
    (hhigh : (toString high).length ≤ 10) :
    parse? (writtenRange low high) =
      if low < 0 then some (.signed low high)
      else if high < 0 then none
      else some (.unsigned low.natAbs high.natAbs) := by
  have hclose : '>' ∉ (toString low).toList ++ '-' :: (toString high).toList := by
    rw [List.mem_append, List.mem_cons, not_or, not_or]
    exact ⟨close_notMem_toString low, by decide, close_notMem_toString high⟩
  have hdigits : '-' ∉ (toString low.natAbs).toList := (isRun_toString _).notMem rfl
  have hfits : (boundFits (toString low.natAbs).toList && boundFits (toString high).toList) =
      true := by
    have hdigitsFit : boundFits (toString low.natAbs).toList = true :=
      (boundFits_toString (low.natAbs : Int)).trans (decide_eq_true hlow)
    rw [hdigitsFit, boundFits_toString, decide_eq_true hhigh]
    rfl
  have hleast := natAbs_le_of_length_le hlow
  have hmost := natAbs_le_of_length_le (Nat.le_trans (length_toString_natAbs_le high) hhigh)
  have hsizes : maxSigned 64 ≤ maxUnsigned 64 := by decide
  rw [parse?_of_toList hclose (toList_writtenRange low high)]
  split
  · rename_i hneg
    have hmin : readSigned (maxSigned 64) (toString low.natAbs).toList =
        some (low.natAbs : Int) :=
      readSigned_eq_some_iff.2 ⟨by omega, _, isNumeral_toString (low.natAbs : Int)⟩
    have hmax : readSigned (maxSigned 64) (toString high).toList = some high :=
      readSigned_eq_some_iff.2 ⟨by omega, _, isNumeral_toString high⟩
    have hback : -(low.natAbs : Int) = low := by omega
    rw [toList_toString_of_neg hneg, List.cons_append, ofBounds?_signed hdigits hfits, hmin, hmax,
      Option.bind_some, Option.bind_some, hback]
  · rename_i hnonneg
    have hmin : readUnsigned (maxUnsigned 64) (toString low.natAbs).toList = some low.natAbs :=
      readUnsigned_toString (Nat.le_trans hleast hsizes)
    have hne : (toString low.natAbs).toList ≠ [] :=
      (readDigits_eq_some_iff.1 (readDigits_toString _)).1
    rw [toList_toString_of_nonneg hnonneg, ofBounds?_unsigned hdigits hne hfits, hmin,
      Option.bind_some]
    split
    · rename_i hneg
      rw [toList_toString_of_neg hneg, readUnsigned_minus]
      rfl
    · rename_i hnonneg
      rw [toList_toString_of_nonneg hnonneg, readUnsigned_toString (Nat.le_trans hmost hsizes)]
      rfl

end Range

-- ============================================================================
-- Reading with machine words
-- ============================================================================

/-- A negation whose result is no word: that of the least word. -/
inductive Overflow where
  | negation
deriving DecidableEq, Repr

/-- The bounds of a range as machine words. -/
inductive WordRange where
  | unsigned (min max : UInt64)
  | signed (min max : Int64)
deriving DecidableEq

namespace WordRange

/-- The bounds as numbers. -/
def toRange : WordRange → Range
  | unsigned min max => .unsigned min.toNat max.toNat
  | signed min max => .signed min.toInt max.toInt

/-- Negate a word. -/
def negate (n : Int64) : Except Overflow Int64 :=
  if n = Int64.minValue then .error .negation else .ok (-n)

/-- Read an unsigned word; a numeral that is too great for one is refused. -/
def readUnsigned (cs : List Char) : Option UInt64 :=
  (Text.readUnsigned (maxUnsigned 64) cs).map UInt64.ofNat

/-- Read a signed word; a numeral that does not fit into one is refused. -/
def readSigned (cs : List Char) : Option Int64 :=
  (Text.readSigned (maxSigned 64) cs).map Int64.ofInt

/-- Go on with what was read, if anything was. -/
def ifRead {α β : Type} (read : Option α) (next : α → Except Overflow (Option β)) :
    Except Overflow (Option β) :=
  match read with
  | none => .ok none
  | some a => next a

/-- Read the two bounds between the angle brackets. The lower one of a signed range is negated
    before the upper one is read. -/
def ofBounds : List Char → Except Overflow (Option WordRange)
  | '-' :: rest =>
    ifRead (splitFirst '-' rest) fun (low, high) =>
    ifRead (guard (Range.boundFits low && Range.boundFits high)) fun _ =>
    ifRead (readSigned low) fun n => do
      let min ← negate n
      ifRead (readSigned high) fun max => .ok (some (.signed min max))
  | cs =>
    ifRead (splitFirst '-' cs) fun (low, high) =>
    ifRead (guard (Range.boundFits low && Range.boundFits high)) fun _ =>
    ifRead (readUnsigned low) fun min =>
    ifRead (readUnsigned high) fun max => .ok (some (.unsigned min max))

/-- Read a range token. -/
def parse (text : String) : Except Overflow (Option WordRange) :=
  match text.toList with
  | '<' :: body => ifRead (splitFirst '>' body) fun (bounds, _) => ofBounds bounds
  | _ => .ok none

/-- The reading comes to this range, or to none, and has not overflowed. -/
def Reads (result : Except Overflow (Option WordRange)) (range : Option Range) : Prop :=
  ∃ read, result = .ok read ∧ read.map toRange = range

theorem Reads.ifRead {α : Type} {read : Option α} {next : α → Except Overflow (Option WordRange)}
    {range : α → Option Range} (h : ∀ a, read = some a → Reads (next a) (range a)) :
    Reads (WordRange.ifRead read next) (read.bind range) := by
  cases read with
  | none => exact ⟨none, rfl, rfl⟩
  | some a => exact h a rfl

theorem Reads.ifRead_map {α β : Type} {read : Option α} {word : α → β}
    {next : β → Except Overflow (Option WordRange)} {range : α → Option Range}
    (h : ∀ a, read = some a → Reads (next (word a)) (range a)) :
    Reads (WordRange.ifRead (read.map word) next) (read.bind range) := by
  cases read with
  | none => exact ⟨none, rfl, rfl⟩
  | some a => exact h a rfl

theorem toInt_of_readSigned {cs : List Char} {n : Int}
    (h : Text.readSigned (maxSigned 64) cs = some n) : (Int64.ofInt n).toInt = n := by
  obtain ⟨⟨hlow, hhigh⟩, -⟩ := readSigned_eq_some_iff.1 h
  have hmost : maxSigned 64 = 2 ^ 63 - 1 := rfl
  exact Int64.toInt_ofInt_of_le (by omega) (by omega)

theorem toNat_of_readUnsigned {cs : List Char} {n : Nat}
    (h : Text.readUnsigned (maxUnsigned 64) cs = some n) : (UInt64.ofNat n).toNat = n := by
  have hle := readUnsigned_le h
  have hmost : maxUnsigned 64 = 2 ^ 64 - 1 := rfl
  rw [UInt64.toNat_ofNat', Nat.mod_eq_of_lt (by omega)]

/-- What is read behind the minus sign is not negative, so its negation is a word. -/
theorem negate_of_readSigned {cs : List Char} {n : Int} (hcs : '-' ∉ cs)
    (h : Text.readSigned (maxSigned 64) cs = some n) :
    ∃ min, negate (Int64.ofInt n) = .ok min ∧ min.toInt = -n := by
  have hword := toInt_of_readSigned h
  obtain ⟨⟨-, hhigh⟩, sign, digits, hne, hrun, rfl, hvalue⟩ := readSigned_eq_some_iff.1 h
  have hsign : sign ≠ .minus := by
    rintro rfl
    exact hcs (List.mem_append_left _ List.mem_cons_self)
  rw [Sign.apply_of_ne hsign] at hvalue
  have hmost : maxSigned 64 = 2 ^ 63 - 1 := rfl
  have hleast : Int64.ofInt n ≠ Int64.minValue := by
    intro heq
    rw [heq, Int64.toInt_minValue] at hword
    omega
  refine ⟨-Int64.ofInt n, if_neg hleast, ?_⟩
  rw [Int64.toInt_neg, hword, Int.bmod_eq_of_le (by omega) (by omega)]

theorem ofBounds_reads (cs : List Char) : Reads (ofBounds cs) (Range.ofBounds? cs) := by
  by_cases hminus : ∃ rest, cs = '-' :: rest
  · obtain ⟨rest, rfl⟩ := hminus
    rw [ofBounds, Range.ofBounds?]
    refine Reads.ifRead fun parts hsplit => ?_
    obtain ⟨low, high⟩ := parts
    refine Reads.ifRead fun _ _ => Reads.ifRead_map fun n hn => ?_
    have hlow : '-' ∉ low := (splitFirst_eq_some hsplit).2
    obtain ⟨min, hnegate, hmin⟩ := negate_of_readSigned hlow hn
    rw [hnegate]
    refine Reads.ifRead_map fun m hm => ⟨_, rfl, ?_⟩
    rw [Option.map_some, toRange, hmin, toInt_of_readSigned hm]
    rfl
  · have hne (rest : List Char) (hrest : cs = '-' :: rest) : False := hminus ⟨rest, hrest⟩
    rw [ofBounds.eq_2 cs hne, Range.ofBounds?.eq_2 cs hne]
    refine Reads.ifRead fun parts _ => ?_
    obtain ⟨low, high⟩ := parts
    refine Reads.ifRead fun _ _ => Reads.ifRead_map fun n hn =>
      Reads.ifRead_map fun m hm => ⟨_, rfl, ?_⟩
    rw [Option.map_some, toRange, toNat_of_readUnsigned hn, toNat_of_readUnsigned hm]
    rfl

theorem parse_of_ne {text : String} (h : ∀ body, text.toList ≠ '<' :: body) :
    parse text = .ok none := by
  unfold parse
  split
  · exact absurd ‹_› (h _)
  · rfl

/-- Whatever the text, reading it with machine words does not overflow, and gives the range. -/
theorem parse_reads (text : String) : Reads (parse text) (Range.parse? text) := by
  by_cases hopen : ∃ body, text.toList = '<' :: body
  · obtain ⟨body, hbody⟩ := hopen
    rw [parse, Range.parse?, hbody]
    exact Reads.ifRead fun parts _ => ofBounds_reads parts.1
  · have hne (body : List Char) : text.toList ≠ '<' :: body := fun hbody => hopen ⟨body, hbody⟩
    exact ⟨none, parse_of_ne hne, (Range.parse?_of_ne hne).symm⟩

end WordRange

-- ============================================================================
-- Words against ranges
-- ============================================================================

/-- The signs of the words that a range takes: a minus sign where its lower bound has one. -/
def signsFor (low : Int) : List Sign :=
  if low < 0 then [.absent, .plus, .minus] else [.absent, .plus]

/-- The range that was read takes the numerals within the bounds that were written. -/
theorem any_accepts_written_iff {low high : Int} (hlow : (toString low.natAbs).length ≤ 10)
    (hhigh : (toString high).length ≤ 10) (word : String) :
    (Range.parse? (writtenRange low high)).any (·.accepts word) = true ↔
      IsNumeralWithin (signsFor low) low high word := by
  have hleast := natAbs_le_of_length_le hlow
  have hmost := natAbs_le_of_length_le (Nat.le_trans (length_toString_natAbs_le high) hhigh)
  have hsizes : maxSigned 64 ≤ maxUnsigned 64 := by decide
  rw [Range.parse?_written hlow hhigh]
  by_cases hneg : low < 0
  · rw [if_pos hneg, Option.any_some, signsFor, if_pos hneg]
    exact Range.accepts_signed_iff (by omega) (by omega) word
  · rw [if_neg hneg, signsFor, if_neg hneg]
    by_cases hempty : high < 0
    · rw [if_pos hempty]
      constructor
      · intro h
        cases h
      · rintro ⟨sign, -, n, -, hlown, hhighn⟩
        omega
    · rw [if_neg hempty, Option.any_some, Range.accepts_unsigned_iff (Nat.le_trans hmost hsizes),
        Int.natAbs_of_nonneg (Int.not_lt.1 hneg), Int.natAbs_of_nonneg (Int.not_lt.1 hempty)]

namespace Token

theorem classify_writtenRange (low high : Int) (word : String) (min : Grade) (unwrap : Bool) :
    (Token.ofText (writtenRange low high)).classify word min unwrap =
      if (Range.parse? (writtenRange low high)).any (·.accepts word) then .range
      else .noMatch := by
  have hhead : (writtenRange low high).toList.head? = some '<' := by
    rw [toList_writtenRange]
    rfl
  have hshape : Shape.ofText (writtenRange low high) =
      .range (Range.parse? (writtenRange low high)) := by
    simp [Shape.ofText, hhead]
  rw [Token.ofText, hhead, if_neg (by decide), classify, Atom.classify, Atom.ofText, hshape]

/-- A range whose bounds have ten characters at most, the minus sign of the upper one among
    them, takes exactly the words that are decimal numerals, with a minus sign only where the
    lower bound has one, of a value between the bounds; it takes no other word. And reading a
    range with machine words never overflows, whatever the text. -/
theorem classify_written_iff {low high : Int} (hlow : (toString low.natAbs).length ≤ 10)
    (hhigh : (toString high).length ≤ 10) :
    (∀ (word : String) (min : Grade) (unwrap : Bool),
      ((ofText (writtenRange low high)).classify word min unwrap = .range ↔
          IsNumeralWithin (signsFor low) low high word) ∧
        (¬IsNumeralWithin (signsFor low) low high word →
          (ofText (writtenRange low high)).classify word min unwrap = .noMatch)) ∧
      ∀ text, ∃ read, WordRange.parse text = .ok read ∧
        read.map WordRange.toRange = Range.parse? text := by
  refine ⟨fun word min unwrap => ?_, WordRange.parse_reads⟩
  rw [classify_writtenRange, ← any_accepts_written_iff hlow hhigh]
  cases (Range.parse? (writtenRange low high)).any (·.accepts word) <;> simp

/-- A negative upper bound, zeros in front of a value, and a word beyond 64 bits, which is no
    numeral within the bounds. -/
theorem classify_written_iff_negative :
    (ofText "<-9999999999--5>").classify "-0000000000000000000000007" .exact true = .range ∧
      ¬IsNumeralWithin [.absent, .plus, .minus] (-9999999999) (-5) "-99999999999999999999" := by
  have hlow : (toString (-9999999999 : Int).natAbs).length ≤ 10 := by decide
  have hhigh : (toString (-5 : Int)).length ≤ 10 := by decide
  have hseven : IsNumeralWithin (signsFor (-9999999999)) (-9999999999) (-5)
      "-0000000000000000000000007" :=
    ⟨.minus, by decide, -7, ⟨"0000000000000000000000007".toList, by decide, by decide, by decide,
      by decide⟩, by decide, by decide⟩
  refine ⟨((classify_written_iff hlow hhigh).1 _ .exact true).1.2 hseven, fun hwithin => ?_⟩
  have hrange := ((classify_written_iff hlow hhigh).1 _ .any true).1.2 hwithin
  exact absurd hrange (by decide +kernel)

end Token

end RouterCli
