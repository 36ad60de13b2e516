import RouterCli.Pattern.Token

/-!
  RouterCli.Pattern.Levels

  Compiling a pattern. A pattern such as `show (bts|trx) [<0-255>]` becomes a
  list of levels, one for each typed word, and each level lists the tokens that
  may stand there with a line of help for each. The reader goes in passes: a
  pass steps over the grouping marks before a token and then takes the token.
  Every pass gets shorter (`takeToken_shorter`), so the reading ends.
-/

namespace RouterCli

/-- One token of a level and its help text. -/
structure Alternative where
  token : Token
  /-- One line of help, empty where the help ran out. -/
  doc : String
deriving DecidableEq, Repr

namespace Alternative

/-- The text of the token. -/
def text (a : Alternative) : String :=
  a.token.text

end Alternative

/-- The alternatives for one typed word. -/
abbrev Level := List Alternative

/-- What makes a pattern malformed. -/
inductive PatternDefect where
  | strayBar
  | openGroup
  | empty
deriving DecidableEq, Repr

namespace PatternDefect

/-- The words for a defect. -/
def message : PatternDefect → String
  | strayBar => "'|' outside of an alternation group"
  | openGroup => "unterminated alternation group"
  | empty => "empty pattern"

end PatternDefect

-- ============================================================================
-- Help lines
-- ============================================================================

/-- The lines of a help text: its pieces between line breaks without their
    leading blanks, those left empty skipped. -/
def docLines (doc : String) : List String :=
  (((Text.pieces Text.isLineBreak doc.toList).map (·.dropWhile Text.isBlank)).filter
    (!·.isEmpty)).map String.ofList

-- ============================================================================
-- One pass
-- ============================================================================

/-- Where the reader stands with respect to a group. -/
inductive Grouping where
  /-- Not in a group. -/
  | outside
  /-- At the first alternative of a group. -/
  | opened
  /-- Behind an alternative of a group. -/
  | within
deriving DecidableEq, Repr

namespace Grouping

/-- The place behind one more token. -/
def afterToken : Grouping → Grouping
  | outside => outside
  | opened | within => within

end Grouping

/-- Step over `mark`; where it stood, the grouping becomes `after`. -/
def takeMark (mark : Char) (after : Grouping) :
    Grouping × List Char → Grouping × List Char
  | (g, c :: rest) => if c = mark then (after, rest) else (g, c :: rest)
  | (g, []) => (g, [])

/-- Step over a bar, which only a group may hold. -/
def takeBar : Grouping × List Char → Except PatternDefect (Grouping × List Char)
  | (g, '|' :: rest) => if g = .outside then .error .strayBar else .ok (g, rest)
  | s => .ok s

/-- Step over blanks. -/
def dropBlanks (s : Grouping × List Char) : Grouping × List Char :=
  (s.1, s.2.dropWhile Text.isAsciiBlank)

/-- Step over the marks before a token: an opening, a closing, a bar, and an
    opening again, each at most once and in this order. -/
def takeMarks (s : Grouping × List Char) : Except PatternDefect (Grouping × List Char) :=
  (takeBar (takeMark ')' .outside (takeMark '(' .opened (dropBlanks s)))).map
    fun s => takeMark '(' .opened (dropBlanks s)

/-- A character that no token holds. -/
def endsToken (c : Char) : Bool :=
  Text.isAsciiBlank c || c == ')' || c == '|'

/-- A token as one pass finds it. -/
structure FoundToken where
  /-- Its characters; none where a mark follows a mark. -/
  text : List Char
  grouping : Grouping
  rest : List Char
deriving DecidableEq, Repr

/-- One pass: the marks, then the next token. At the end of the text there is
    no token, and the pass tells whether a group is still open. -/
def takeToken (g : Grouping) (cs : List Char) :
    Except PatternDefect (Grouping ⊕ FoundToken) := do
  let (g, cs) ← takeMarks (g, cs)
  if cs.isEmpty then
    return .inl g
  else
    return .inr ⟨cs.takeWhile (!endsToken ·), g, cs.dropWhile (!endsToken ·)⟩

-- ============================================================================
-- Every pass gets shorter
-- ============================================================================

/-- A step that makes the text shorter, or changes nothing where the next character is
    none that it `takes`. -/
def Shortens (takes : Char → Bool) (s t : Grouping × List Char) : Prop :=
  (t = s ∧ ∀ c ∈ s.2.head?, takes c = false) ∨ t.2.length < s.2.length

section Shortens

variable {s t u : Grouping × List Char} {takes takes' : Char → Bool}

theorem Shortens.trans (hst : Shortens takes s t) (htu : Shortens takes' t u) :
    Shortens (fun c => takes c || takes' c) s u := by
  rcases hst with ⟨rfl, hstop⟩ | hshorter
  · refine htu.imp_left fun ⟨hu, hstop'⟩ => ⟨hu, fun c hc => ?_⟩
    exact Bool.or_eq_false_iff.2 ⟨hstop c hc, hstop' c hc⟩
  · rcases htu with ⟨rfl, -⟩ | hshorter'
    · exact .inr hshorter
    · exact .inr (Nat.lt_trans hshorter' hshorter)

theorem Shortens.mono (h : Shortens takes s t) (himp : ∀ c, takes c = false → takes' c = false) :
    Shortens takes' s t :=
  h.imp_left fun ⟨ht, hstop⟩ => ⟨ht, fun c hc => himp c (hstop c hc)⟩

theorem takeMark_shortens (mark : Char) (after : Grouping) (s : Grouping × List Char) :
    Shortens (· == mark) s (takeMark mark after s) := by
  obtain ⟨g, _ | ⟨c, rest⟩⟩ := s
  · simp [Shortens, takeMark]
  · by_cases h : c = mark <;> simp [Shortens, takeMark, h]

theorem takeBar_shortens (h : takeBar s = .ok t) : Shortens (· == '|') s t := by
  unfold takeBar at h
  split at h
  · split at h
    · cases h
    · cases h
      exact .inr (Nat.lt_succ_self _)
  · rename_i hbar
    cases h
    refine .inl ⟨rfl, fun c hc => ?_⟩
    obtain ⟨rest, hrest⟩ := List.head?_eq_some_iff.1 hc
    refine beq_eq_false_iff_ne.2 fun heq => hbar s.1 rest ?_
    rw [← heq, ← hrest]

theorem head?_dropBlanks (s : Grouping × List Char) (c : Char)
    (h : (dropBlanks s).2.head? = some c) : Text.isAsciiBlank c = false := by
  have := List.head?_dropWhile_not Text.isAsciiBlank s.2
  simp only [dropBlanks] at h
  rw [h] at this
  simpa using this

theorem dropBlanks_shortens (s : Grouping × List Char) :
    Shortens Text.isAsciiBlank s (dropBlanks s) := by
  have hsub : (dropBlanks s).2.Sublist s.2 := List.dropWhile_sublist _
  rcases Nat.lt_or_eq_of_le hsub.length_le with hshorter | hlength
  · exact .inr hshorter
  · have hsame : dropBlanks s = s := Prod.ext rfl (hsub.eq_of_length hlength)
    exact .inl ⟨hsame, fun c hc => head?_dropBlanks s c (hsame.symm ▸ hc)⟩

/-- The marks before a token end with blanks and, where it stands there, a parenthesis. -/
theorem takeMarks_eq_ok (h : takeMarks s = .ok t) :
    ∃ u, takeBar (takeMark ')' .outside (takeMark '(' .opened (dropBlanks s))) = .ok u ∧
      t = takeMark '(' .opened (dropBlanks u) := by
  unfold takeMarks at h
  cases hu : takeBar (takeMark ')' .outside (takeMark '(' .opened (dropBlanks s))) with
  | error defect =>
    rw [hu] at h
    cases h
  | ok u =>
    rw [hu] at h
    exact ⟨u, rfl, (Except.ok.inj h).symm⟩

/-- Either a mark or a blank was stepped over, or a token starts here. -/
theorem takeMarks_shortens (h : takeMarks s = .ok t) : Shortens endsToken s t := by
  obtain ⟨u, hbar, rfl⟩ := takeMarks_eq_ok h
  have hopening := (dropBlanks_shortens s).trans (takeMark_shortens '(' .opened _)
  have hclosing := hopening.trans (takeMark_shortens ')' .outside _)
  have hbarred := hclosing.trans (takeBar_shortens hbar)
  have hreopening := (dropBlanks_shortens u).trans (takeMark_shortens '(' .opened _)
  refine (hbarred.trans hreopening).mono fun c hc => ?_
  simp only [Bool.or_eq_false_iff] at hc
  simp only [endsToken, hc, Bool.or_self]

end Shortens

/-- Behind the marks a pass finds the end of the text, or parts it where the token ends. -/
theorem takeToken_eq_ok {g : Grouping} {cs : List Char} {result : Grouping ⊕ FoundToken}
    (h : takeToken g cs = .ok result) :
    ∃ t, takeMarks (g, cs) = .ok t ∧ (t.2 = [] ∧ result = .inl t.1 ∨ t.2 ≠ [] ∧
      result = .inr ⟨t.2.takeWhile (!endsToken ·), t.1, t.2.dropWhile (!endsToken ·)⟩) := by
  unfold takeToken at h
  cases hmarks : takeMarks (g, cs) with
  | error defect =>
    rw [hmarks] at h
    cases h
  | ok t =>
    rw [hmarks] at h
    simp only [bind, Except.bind, pure, Except.pure, List.isEmpty_iff] at h
    refine ⟨t, rfl, ?_⟩
    split at h
    · rename_i hend
      exact .inl ⟨hend, (Except.ok.inj h).symm⟩
    · rename_i hend
      exact .inr ⟨hend, (Except.ok.inj h).symm⟩

/-- The text behind a token is shorter than the text before its marks. -/
theorem takeToken_shorter {g : Grouping} {cs : List Char} {found : FoundToken}
    (h : takeToken g cs = .ok (.inr found)) : found.rest.length < cs.length := by
  obtain ⟨⟨g', text⟩, hmarks, ⟨-, hnone⟩ | ⟨hne, hfound⟩⟩ := takeToken_eq_ok h
  · cases hnone
  cases hfound
  rcases takeMarks_shortens hmarks with ⟨heq, hstop⟩ | hshorter
  · -- No mark was stepped over, so the token has the first character at least.
    cases heq
    obtain ⟨c, rest, rfl⟩ := List.exists_cons_of_ne_nil hne
    have hkept : (c :: rest).dropWhile (!endsToken ·) = rest.dropWhile (!endsToken ·) := by
      rw [List.dropWhile_cons, hstop c rfl]
      rfl
    have hle : (rest.dropWhile (!endsToken ·)).length ≤ rest.length :=
      (List.dropWhile_sublist _).length_le
    rw [hkept, List.length_cons]
    exact Nat.lt_succ_of_le hle
  · exact Nat.lt_of_le_of_lt (List.dropWhile_sublist _).length_le hshorter

-- ============================================================================
-- Compiling
-- ============================================================================

/-- Add an alternative: to the last level behind an alternative of its group,
    else on a level of its own. -/
def addAlternative (g : Grouping) (levels : List Level) (a : Alternative) : List Level :=
  match g, levels.getLast? with
  | .within, some last => levels.dropLast ++ [last ++ [a]]
  | _, _ => levels ++ [[a]]

/-- Read the tokens of `cs` behind `levels`, each with its line of help. -/
def compileFrom (g : Grouping) (cs : List Char) (docs : List String) (levels : List Level) :
    Except PatternDefect (List Level) :=
  match _h : takeToken g cs with
  | .error defect => .error defect
  | .ok (.inl g) =>
    if g ≠ .outside then .error .openGroup
    else if levels.isEmpty then .error .empty
    else .ok levels
  | .ok (.inr found) =>
    let alternative := ⟨Token.ofText (String.ofList found.text), docs.headD ""⟩
    compileFrom found.grouping.afterToken found.rest docs.tail
      (addAlternative found.grouping levels alternative)
termination_by cs.length
decreasing_by exact takeToken_shorter _h

/-- The levels of a pattern, with the lines of `doc` given to its tokens in
    reading order. -/
def compile (pattern doc : String) : Except PatternDefect (List Level) :=
  compileFrom .outside pattern.toList (docLines doc) []

-- ============================================================================
-- Levels
-- ============================================================================

namespace Level

/-- A level that may be left out: one token, in brackets. -/
def isOptional : Level → Bool
  | [a] => a.token.isOptional
  | _ => false

end Level

/-- How many words must be typed: the levels before the first optional one. -/
def mandatory (levels : List Level) : Nat :=
  (levels.takeWhile (!Level.isOptional ·)).length

/-- The levels with the alternatives of the last one in the order of their
    texts. -/
def sortLastLevel (levels : List Level) : List Level :=
  match levels.getLast? with
  | none => levels
  | some last => levels.dropLast ++ [last.mergeSort fun a b => decide (a.text ≤ b.text)]

end RouterCli
