/-
  RouterCli.Text.Blank

  The three character classes of the command line: the blanks that separate
  typed words (Unicode White_Space), the narrower ASCII blanks that separate
  pattern words, and the control characters (general category Cc).
-/

namespace RouterCli.Text

-- ============================================================================
-- Character classes
-- ============================================================================

/-- Unicode White_Space: what separates the words of a line. -/
def isBlank (c : Char) : Bool :=
  let n := c.toNat
  (0x9 ≤ n && n ≤ 0xD) || n == 0x20 || n == 0x85 || n == 0xA0 || n == 0x1680 ||
    (0x2000 ≤ n && n ≤ 0x200A) || n == 0x2028 || n == 0x2029 || n == 0x202F ||
    n == 0x205F || n == 0x3000

/-- ASCII white space (space, tab, line feed, form feed, carriage return): what
    separates the words of a pattern. The vertical tab is not in it. -/
def isAsciiBlank (c : Char) : Bool :=
  c == ' ' || c == '\t' || c == '\n' || c == '\x0c' || c == '\r'

/-- General category Cc: the C0 controls, DEL and the C1 controls. -/
def isControl (c : Char) : Bool :=
  c.toNat < 0x20 || (0x7F ≤ c.toNat && c.toNat < 0xA0)

/-- Either half of a line break. -/
def isLineBreak (c : Char) : Bool :=
  c == '\r' || c == '\n'

-- ============================================================================
-- Trimming and comparing
-- ============================================================================

/-- The text without the line breaks at its end. -/
def trimLineBreaks (s : String) : String :=
  String.ofList (s.toList.reverse.dropWhile isLineBreak).reverse

/-- The text ends in a line feed. -/
def endsInLineFeed (s : String) : Bool :=
  s.toList.getLast? == some '\n'

/-- Nothing but blanks. -/
def isAllBlank (s : String) : Bool :=
  s.toList.all isBlank

/-- The text starts with `word`. -/
def startsWith (s word : String) : Bool :=
  word.toList.isPrefixOf s.toList

/-- The characters that two texts share from the front. -/
def commonStart : List Char → List Char → List Char
  | a :: as, b :: bs => if a = b then a :: commonStart as bs else []
  | _, _ => []

/-- The bytes of some characters. -/
def byteLength (cs : List Char) : Nat :=
  (String.ofList cs).utf8ByteSize

/-- The characters at the front that end within so many bytes. -/
def takeBytes : Nat → List Char → List Char
  | _, [] => []
  | n, c :: rest => if c.utf8Size ≤ n then c :: takeBytes (n - c.utf8Size) rest else []

-- ============================================================================
-- Splitting
-- ============================================================================

/-- Put a character in front of the first word, or start a word with it. -/
def consWord (c : Char) : List (List Char) → List (List Char)
  | [] => [[c]]
  | w :: ws => (c :: w) :: ws

/-- The maximal runs of characters that are not blank, in order. -/
def wordRuns : List Char → List (List Char)
  | [] => []
  | c :: rest =>
    if isBlank c then wordRuns rest
    else if rest.head?.all isBlank then [c] :: wordRuns rest
    else consWord c (wordRuns rest)

/-- The words of a text: its maximal runs of characters that are not blank. -/
def words (s : String) : List String :=
  (wordRuns s.toList).map String.ofList

/-- The pieces between separators; a text without one is a single piece. -/
def pieces (isSeparator : Char → Bool) : List Char → List (List Char)
  | [] => [[]]
  | c :: rest =>
    if isSeparator c then [] :: pieces isSeparator rest
    else consWord c (pieces isSeparator rest)

/-- The text before and after the first `c`, if there is one. -/
def splitFirst (c : Char) : List Char → Option (List Char × List Char)
  | [] => none
  | d :: rest =>
    if d = c then some ([], rest)
    else (splitFirst c rest).map fun (before, after) => (d :: before, after)

/-- The first `%s` of a template replaced by `value`. -/
def fillTemplate (value : List Char) : List Char → List Char
  | '%' :: 's' :: rest => value ++ rest
  | c :: rest => c :: fillTemplate value rest
  | [] => []

/-- Words joined by single spaces. -/
def unwords (ws : List String) : String :=
  " ".intercalate ws

/-- The text followed by spaces up to `width` characters. -/
def padRight (width : Nat) (s : String) : String :=
  s ++ String.ofList (List.replicate (width - s.length) ' ')

-- ============================================================================
-- Laws
-- ============================================================================

theorem startsWith_iff (s word : String) :
    startsWith s word = true ↔ word.toList <+: s.toList := by
  simp [startsWith]

theorem byteLength_append (as bs : List Char) :
    byteLength (as ++ bs) = byteLength as + byteLength bs := by
  rw [byteLength, String.ofList_append, String.utf8ByteSize_append]
  rfl

theorem byteLength_cons (c : Char) (cs : List Char) :
    byteLength (c :: cs) = c.utf8Size + byteLength cs := by
  rw [← List.singleton_append, byteLength_append, byteLength, ← String.singleton_eq_ofList,
    String.utf8ByteSize_singleton]

theorem byteLength_toList (s : String) : byteLength s.toList = s.utf8ByteSize := by
  rw [byteLength, String.ofList_toList]

theorem byteLength_le_of_prefix {as bs : List Char} (h : as <+: bs) :
    byteLength as ≤ byteLength bs := by
  obtain ⟨rest, rfl⟩ := h
  rw [byteLength_append]
  exact Nat.le_add_right _ _

/-- Where one text begins the other, they compare by bytes as by characters. -/
theorem byteLength_lt_iff_of_prefix {as bs : List Char} (h : as <+: bs) :
    byteLength as < byteLength bs ↔ as.length < bs.length := by
  obtain ⟨rest, rfl⟩ := h
  rw [byteLength_append, List.length_append]
  cases rest with
  | nil => simp [byteLength]
  | cons c rest =>
    have hpos := c.utf8Size_pos
    rw [byteLength_cons, List.length_cons]
    omega

/-- The bytes of a front part cut it out. -/
theorem takeBytes_byteLength {as bs : List Char} (h : as <+: bs) :
    takeBytes (byteLength as) bs = as := by
  induction as generalizing bs with
  | nil =>
    cases bs with
    | nil => rfl
    | cons b bs => exact if_neg (Nat.not_le_of_lt b.utf8Size_pos)
  | cons a as ih =>
    obtain ⟨rest, rfl⟩ := h
    rw [List.cons_append, byteLength_cons, takeBytes, if_pos (Nat.le_add_right _ _),
      Nat.add_sub_cancel_left, ih (List.prefix_append as rest)]

theorem splitFirst_eq_some {c : Char} {s before after : List Char}
    (h : splitFirst c s = some (before, after)) :
    s = before ++ c :: after ∧ c ∉ before := by
  induction s generalizing before after with
  | nil => simp [splitFirst] at h
  | cons d rest ih =>
    simp only [splitFirst] at h
    split at h
    · rename_i hd
      simp only [Option.some.injEq, Prod.mk.injEq] at h
      obtain ⟨rfl, rfl⟩ := h
      simp [hd]
    · rename_i hd
      simp only [Option.map_eq_some_iff, Prod.mk.injEq] at h
      obtain ⟨⟨b, a⟩, hb, rfl, rfl⟩ := h
      obtain ⟨rfl, hmem⟩ := ih hb
      exact ⟨rfl, by simp [hmem, Ne.symm hd]⟩

end RouterCli.Text
