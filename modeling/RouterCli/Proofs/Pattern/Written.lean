import RouterCli.Log.Settings
import RouterCli.Proofs.Files.FreshName
import RouterCli.Proofs.Pattern.Compiled

/-!
  RouterCli.Proofs.Pattern.Written

  A pattern that is written from its levels is read as these levels. The text is taken
  apart as it was put together, a level with the space before it at a time: behind a level
  the reader is outside of a group, or before the parenthesis that closes one, which comes
  to the same wherever a level or nothing follows (`compileFrom_close`).
-/

namespace RouterCli

-- ============================================================================
-- Help lines
-- ============================================================================

namespace Text

/-- A separator ends the piece before it. -/
theorem pieces_append_cons {isSeparator : Char → Bool} {s : List Char}
    (hs : ∀ c ∈ s, isSeparator c = false) {c : Char} (hc : isSeparator c = true)
    (t : List Char) : pieces isSeparator (s ++ c :: t) = s :: pieces isSeparator t := by
  induction s with
  | nil => simp [pieces, hc]
  | cons d s ih =>
    obtain ⟨hd, hs⟩ := List.forall_mem_cons.1 hs
    simp [pieces, hd, ih hs, consWord]

end Text

/-- A line of help as it is read: it is not empty, has no line break, and no blank first. -/
structure IsHelpLine (line : String) : Prop where
  ne_empty : line ≠ ""
  unbroken : ∀ c ∈ line.toList, Text.isLineBreak c = false
  first : line.toList.head?.any Text.isBlank = false

instance (line : String) : Decidable (IsHelpLine line) :=
  decidable_of_iff
    (line ≠ "" ∧ line.toList.all (!Text.isLineBreak ·) = true ∧
      line.toList.head?.any Text.isBlank = false)
    ⟨fun h => ⟨h.1, by simpa using h.2.1, h.2.2⟩,
      fun h => ⟨h.ne_empty, by simpa using h.unbroken, h.first⟩⟩

section Help

variable {line : String} {help : List String}

theorem IsHelpLine.toList_ne_nil (h : IsHelpLine line) : line.toList ≠ [] :=
  fun hnil => h.ne_empty (String.toList_inj.1 hnil)

theorem IsHelpLine.dropWhile_isBlank (h : IsHelpLine line) :
    line.toList.dropWhile Text.isBlank = line.toList := by
  obtain ⟨c, cs, hline⟩ := List.exists_cons_of_ne_nil h.toList_ne_nil
  have hc : Text.isBlank c = false := by simpa [hline] using h.first
  rw [hline, List.dropWhile_cons_of_neg (by simp [hc])]

theorem docLines_empty : docLines "" = [] :=
  rfl

theorem docLines_of_isHelpLine (h : IsHelpLine line) : docLines line = [line] := by
  rw [docLines, Text.pieces_of_forall h.unbroken]
  simp [h.dropWhile_isBlank, h.ne_empty]

theorem docLines_line_append (h : IsHelpLine line) (rest : String) :
    docLines (line ++ "\n" ++ rest) = line :: docLines rest := by
  have hlist : (line ++ "\n" ++ rest).toList = line.toList ++ '\n' :: rest.toList := by simp
  rw [docLines, hlist, Text.pieces_append_cons h.unbroken rfl]
  simp [h.dropWhile_isBlank, h.ne_empty, docLines]

theorem docLines_joinLines (h : ∀ line ∈ help, IsHelpLine line) :
    docLines (joinLines help) = help := by
  induction help with
  | nil => exact docLines_empty
  | cons line help ih =>
    obtain ⟨hline, hhelp⟩ := List.forall_mem_cons.1 h
    have hjoin : joinLines (line :: help) = line ++ "\n" ++ joinLines help := by simp [joinLines]
    rw [hjoin, docLines_line_append hline, ih hhelp]

theorem docLines_intercalate (h : ∀ line ∈ help, IsHelpLine line) :
    docLines ("\n".intercalate help) = help := by
  induction help with
  | nil => exact docLines_empty
  | cons line help ih =>
    obtain ⟨hline, hhelp⟩ := List.forall_mem_cons.1 h
    cases help with
    | nil => rw [String.intercalate_singleton, docLines_of_isHelpLine hline]
    | cons next help => rw [String.intercalate_cons_cons, docLines_line_append hline, ih hhelp]

end Help

-- ============================================================================
-- Texts that a pattern can write
-- ============================================================================

/-- A character that is neither a blank nor a mark of a pattern. -/
def isPlainChar (c : Char) : Bool :=
  !Text.isAsciiBlank c && c != '(' && c != ')' && c != '|'

/-- The texts of a level that a pattern can write. -/
structure IsWritable (texts : List String) : Prop where
  /-- The first one is there and not empty; in a group the later ones may be empty. -/
  first : texts.headD "" ≠ ""
  plain : ∀ text ∈ texts, ∀ c ∈ text.toList, isPlainChar c = true

instance (texts : List String) : Decidable (IsWritable texts) :=
  decidable_of_iff
    (texts.headD "" ≠ "" ∧ texts.all (fun text => text.toList.all isPlainChar) = true)
    ⟨fun h => ⟨h.1, by simpa using h.2⟩, fun h => ⟨h.first, by simpa using h.plain⟩⟩

theorem IsWritable.exists_eq_cons {texts : List String} (h : IsWritable texts) :
    ∃ text others, texts = text :: others ∧ text ≠ "" := by
  cases texts with
  | nil => exact absurd rfl h.first
  | cons text others => exact ⟨text, others, rfl, h.first⟩

section Plain

variable {c : Char}

theorem isAsciiBlank_of_isPlainChar (h : isPlainChar c = true) : Text.isAsciiBlank c = false := by
  simp_all [isPlainChar]

theorem endsToken_of_isPlainChar (h : isPlainChar c = true) : endsToken c = false := by
  simp_all [isPlainChar, endsToken]

theorem exists_cons_of_isPlainChar {text : String} (hne : text ≠ "")
    (h : ∀ c ∈ text.toList, isPlainChar c = true) :
    ∃ c cs, text.toList = c :: cs ∧ isPlainChar c = true := by
  cases hlist : text.toList with
  | nil => exact absurd (String.toList_inj.1 hlist) hne
  | cons c cs => exact ⟨c, cs, rfl, h c (by rw [hlist]; exact List.mem_cons_self)⟩

end Plain

-- ============================================================================
-- Marks
-- ============================================================================

section Marks

variable {g : Grouping} {c : Char} {cs : List Char}

theorem takeMarks_space (g : Grouping) (cs : List Char) :
    takeMarks (g, ' ' :: cs) = takeMarks (g, cs) :=
  rfl

/-- No mark stands before a plain character. -/
theorem takeMarks_plain (hc : isPlainChar c = true) : takeMarks (g, c :: cs) = .ok (g, c :: cs) := by
  simp_all [isPlainChar, takeMarks, takeMark, takeBar, dropBlanks, Except.map]

theorem takeMarks_open (hc : isPlainChar c = true) :
    takeMarks (g, '(' :: c :: cs) = .ok (.opened, c :: cs) := by
  simp_all [isPlainChar, takeMarks, takeMark, takeBar, dropBlanks, Except.map, Text.isAsciiBlank]

/-- A bar is stepped over where a token or a mark of the group follows it at once. -/
theorem takeMarks_bar (hcs : ∀ c ∈ cs.head?, Text.isAsciiBlank c = false ∧ c ≠ '(') :
    takeMarks (.within, '|' :: cs) = .ok (.within, cs) := by
  cases cs with
  | nil => rfl
  | cons c cs =>
    obtain ⟨hblank, hopen⟩ := hcs c rfl
    have hbar : Text.isAsciiBlank '|' = false := rfl
    simp [takeMarks, takeMark, takeBar, dropBlanks, Except.map, hbar, hblank, hopen]

end Marks

/-- What may stand behind a level: nothing, or a space and the next level. -/
inductive IsBehindLevel : List Char → Prop where
  | done : IsBehindLevel []
  | text {c : Char} {cs : List Char} (hc : isPlainChar c = true) : IsBehindLevel (' ' :: c :: cs)
  | group {c : Char} {cs : List Char} (hc : isPlainChar c = true) :
      IsBehindLevel (' ' :: '(' :: c :: cs)

theorem IsBehindLevel.endsToken {rest : List Char} (h : IsBehindLevel rest) :
    ∀ c ∈ rest.head?, endsToken c = true := by
  cases h <;> simp [RouterCli.endsToken, Text.isAsciiBlank]

/-- Behind a group, its parenthesis does nothing but close it. -/
theorem takeMarks_close {rest : List Char} (h : IsBehindLevel rest) :
    takeMarks (.within, ')' :: rest) = takeMarks (.outside, rest) := by
  cases h with
  | done => rfl
  | text hc =>
    rw [takeMarks_space, takeMarks_plain hc]
    simp_all [isPlainChar, takeMarks, takeMark, takeBar, dropBlanks, Except.map,
      Text.isAsciiBlank]
  | group hc =>
    rw [takeMarks_space, takeMarks_open hc]
    simp_all [isPlainChar, takeMarks, takeMark, takeBar, dropBlanks, Except.map,
      Text.isAsciiBlank]

-- ============================================================================
-- Tokens
-- ============================================================================

section Reading

variable {docs : List String} {levels : List Level}

theorem compileFrom_congr {g g' : Grouping} {cs cs' : List Char}
    (h : takeMarks (g, cs) = takeMarks (g', cs')) (docs : List String) (levels : List Level) :
    compileFrom g cs docs levels = compileFrom g' cs' docs levels := by
  have htake : takeToken g cs = takeToken g' cs' := by rw [takeToken, takeToken, h]
  rw [compileFrom, compileFrom, htake]

/-- Behind the marks, a token goes as far as no character ends it. -/
theorem compileFrom_text {g g' : Grouping} {cs text rest : List Char}
    (hmarks : takeMarks (g, cs) = .ok (g', text ++ rest)) (hne : text ++ rest ≠ [])
    (htext : ∀ c ∈ text, endsToken c = false) (hrest : ∀ c ∈ rest.head?, endsToken c = true)
    (docs : List String) (levels : List Level) :
    compileFrom g cs docs levels =
      compileFrom g'.afterToken rest docs.tail
        (addAlternative g' levels ⟨Token.ofText (String.ofList text), docs.headD ""⟩) := by
  have hstop : rest.takeWhile (!endsToken ·) = [] ∧ rest.dropWhile (!endsToken ·) = rest := by
    cases rest with
    | nil => exact ⟨rfl, rfl⟩
    | cons c rest => simp [hrest c rfl]
  have hgo : ∀ c ∈ text, (!endsToken c) = true := by simpa using htext
  have htake : takeToken g cs = .ok (.inr ⟨text, g', rest⟩) := by
    rw [takeToken, hmarks]
    simp only [bind, Except.bind, pure, Except.pure, List.isEmpty_iff, hne, if_false,
      List.takeWhile_append_of_pos hgo, List.dropWhile_append_of_pos hgo, hstop,
      List.append_nil]
  rw [compileFrom, htake]

theorem compileFrom_close {rest : List Char} (h : IsBehindLevel rest) (docs : List String)
    (levels : List Level) :
    compileFrom .within (')' :: rest) docs levels = compileFrom .outside rest docs levels :=
  compileFrom_congr (takeMarks_close h) docs levels

end Reading

-- ============================================================================
-- Levels
-- ============================================================================

/-- Texts as the tokens of a level, each with its line of help while there is one. -/
def helped : List String → List String → Level
  | _, [] => []
  | docs, text :: texts => ⟨Token.ofText text, docs.headD ""⟩ :: helped docs.tail texts

/-- The texts of levels as their tokens, with help in reading order. -/
def helpedLevels : List String → List (List String) → List Level
  | _, [] => []
  | docs, texts :: more => helped docs texts :: helpedLevels (docs.drop texts.length) more

/-- The alternatives behind the first, as a group has them. -/
def barred (others : List String) : List Char :=
  others.flatMap fun text => '|' :: text.toList

/-- Levels with a space before each. -/
def spaced (levels : List (List String)) : List Char :=
  levels.flatMap fun texts => ' ' :: (Element.writtenLevel texts).toList

section Written

variable {text : String} {texts others : List String} {rest : List Char}

theorem toList_intercalate_bar (text : String) (others : List String) :
    ("|".intercalate (text :: others)).toList = text.toList ++ barred others := by
  induction others generalizing text with
  | nil => simp [barred]
  | cons other others ih =>
    rw [String.intercalate_cons_cons, String.toList_append, String.toList_append, ih]
    simp [barred]

theorem toList_writtenLevel (text other : String) (others : List String) :
    (Element.writtenLevel (text :: other :: others)).toList =
      '(' :: (text.toList ++ (barred (other :: others) ++ [')'])) := by
  have hlist : (Element.writtenLevel (text :: other :: others)).toList =
      '(' :: ("|".intercalate (text :: other :: others)).toList ++ [')'] := by
    simp [Element.writtenLevel]
  rw [hlist, toList_intercalate_bar]
  simp

theorem toList_unwords (texts : List String) (levels : List (List String)) :
    ' ' :: (Text.unwords ((texts :: levels).map Element.writtenLevel)).toList =
      spaced (texts :: levels) := by
  induction levels generalizing texts with
  | nil => simp [Text.unwords, spaced]
  | cons next levels ih =>
    have hnext := ih next
    rw [List.map_cons, List.map_cons, Text.unwords, String.intercalate_cons_cons,
      String.toList_append, String.toList_append, ← Text.unwords, ← List.map_cons]
    simp_all [spaced]

/-- Behind an alternative stands a bar, or the parenthesis that closes the group. -/
theorem head?_barred (others : List String) (rest : List Char) :
    ∀ c ∈ (barred others ++ ')' :: rest).head?, c = '|' ∨ c = ')' := by
  cases others <;> simp [barred]

theorem endsToken_head?_barred (others : List String) (rest : List Char) :
    ∀ c ∈ (barred others ++ ')' :: rest).head?, endsToken c = true := by
  intro c hc
  rcases head?_barred others rest c hc with rfl | rfl <;> rfl

/-- The alternatives behind the first go to its level. -/
theorem compileFrom_barred (h : ∀ text ∈ others, ∀ c ∈ text.toList, isPlainChar c = true)
    (rest : List Char) (docs : List String) (levels : List Level) (level : Level) :
    compileFrom .within (barred others ++ ')' :: rest) docs (levels ++ [level]) =
      compileFrom .within (')' :: rest) (docs.drop others.length)
        (levels ++ [level ++ helped docs others]) := by
  induction others generalizing docs level with
  | nil => simp [barred, helped]
  | cons text others ih =>
    obtain ⟨htext, hothers⟩ := List.forall_mem_cons.1 h
    have hmarks : takeMarks (.within, '|' :: (text.toList ++ (barred others ++ ')' :: rest))) =
        .ok (.within, text.toList ++ (barred others ++ ')' :: rest)) := by
      refine takeMarks_bar fun c hc => ?_
      cases hlist : text.toList with
      | nil =>
        rw [hlist, List.nil_append] at hc
        rcases head?_barred others rest c hc with rfl | rfl <;> decide
      | cons d ds =>
        rw [hlist] at hc
        obtain rfl := Option.some.inj hc
        have hplain := htext d (by rw [hlist]; exact List.mem_cons_self)
        exact ⟨isAsciiBlank_of_isPlainChar hplain, by rintro rfl; cases hplain⟩
    have hsplit : barred (text :: others) ++ ')' :: rest =
        '|' :: (text.toList ++ (barred others ++ ')' :: rest)) := by
      simp [barred]
    rw [hsplit, compileFrom_text hmarks (by simp)
      (fun c hc => endsToken_of_isPlainChar (htext c hc)) (endsToken_head?_barred others rest),
      String.ofList_toList]
    rw [addAlternative_within List.getLast?_concat, List.dropLast_concat, Grouping.afterToken,
      ih hothers]
    simp [helped]

/-- One level of a written pattern. -/
theorem compileFrom_level (h : IsWritable texts) (hrest : IsBehindLevel rest)
    (docs : List String) (levels : List Level) :
    compileFrom .outside ((Element.writtenLevel texts).toList ++ rest) docs levels =
      compileFrom .outside rest (docs.drop texts.length) (levels ++ [helped docs texts]) := by
  obtain ⟨text, others, rfl, hne⟩ := h.exists_eq_cons
  obtain ⟨htext, hothers⟩ := List.forall_mem_cons.1 h.plain
  have hgo : ∀ c ∈ text.toList, endsToken c = false :=
    fun c hc => endsToken_of_isPlainChar (htext c hc)
  obtain ⟨c, cs, hlist, hc⟩ := exists_cons_of_isPlainChar hne htext
  cases others with
  | nil =>
    have hmarks : takeMarks (.outside, text.toList ++ rest) =
        .ok (.outside, text.toList ++ rest) := by
      rw [hlist]
      exact takeMarks_plain hc
    rw [Element.writtenLevel, compileFrom_text hmarks (by simp [hlist]) hgo hrest.endsToken,
      String.ofList_toList, List.length_singleton, List.drop_one]
    rfl
  | cons other others =>
    have hsplit : (Element.writtenLevel (text :: other :: others)).toList ++ rest =
        '(' :: (text.toList ++ (barred (other :: others) ++ ')' :: rest)) := by
      rw [toList_writtenLevel]
      simp
    have hmarks : takeMarks (.outside,
        '(' :: (text.toList ++ (barred (other :: others) ++ ')' :: rest))) =
        .ok (.opened, text.toList ++ (barred (other :: others) ++ ')' :: rest)) := by
      rw [hlist]
      exact takeMarks_open hc
    rw [hsplit, compileFrom_text hmarks (by simp) hgo (endsToken_head?_barred _ rest),
      String.ofList_toList, addAlternative_of_ne_within (by decide), Grouping.afterToken,
      compileFrom_barred hothers, compileFrom_close hrest]
    simp [helped]

theorem isBehindLevel_spaced {levels : List (List String)}
    (h : ∀ texts ∈ levels, IsWritable texts) : IsBehindLevel (spaced levels) := by
  cases levels with
  | nil => exact .done
  | cons texts levels =>
    have htexts := h texts List.mem_cons_self
    obtain ⟨text, others, rfl, hne⟩ := htexts.exists_eq_cons
    obtain ⟨c, cs, hlist, hc⟩ :=
      exists_cons_of_isPlainChar hne (htexts.plain text List.mem_cons_self)
    rw [spaced, List.flatMap_cons]
    cases others with
    | nil =>
      rw [Element.writtenLevel, hlist]
      exact .text hc
    | cons other others =>
      rw [toList_writtenLevel, hlist]
      exact .group hc

/-- The levels of a written pattern, one after the other. -/
theorem compileFrom_spaced {levels : List (List String)} (h : ∀ texts ∈ levels, IsWritable texts)
    (docs : List String) {before : List Level} (hne : before ++ helpedLevels docs levels ≠ []) :
    compileFrom .outside (spaced levels) docs before =
      .ok (before ++ helpedLevels docs levels) := by
  induction levels generalizing docs before with
  | nil =>
    rw [helpedLevels, List.append_nil] at hne ⊢
    have hend : takeToken .outside [] = .ok (.inl .outside) := rfl
    rw [spaced, List.flatMap_nil, compileFrom, hend]
    simp [hne]
  | cons texts levels ih =>
    obtain ⟨htexts, hlevels⟩ := List.forall_mem_cons.1 h
    have hsplit : spaced (texts :: levels) =
        ' ' :: ((Element.writtenLevel texts).toList ++ spaced levels) := by
      simp [spaced]
    rw [hsplit, compileFrom_congr (takeMarks_space _ _),
      compileFrom_level htexts (isBehindLevel_spaced hlevels), ih hlevels]
    · simp [helpedLevels]
    · simp

end Written

-- ============================================================================
-- Compiling what was written
-- ============================================================================

section Helped

theorem map_token_helped (docs texts : List String) :
    (helped docs texts).map (·.token) = texts.map Token.ofText := by
  induction texts generalizing docs with
  | nil => rfl
  | cons text texts ih => rw [helped, List.map_cons, List.map_cons, ih]

theorem map_doc_helped (docs texts : List String) :
    (helped docs texts).map (·.doc) =
      (docs ++ List.replicate texts.length "").take texts.length := by
  induction texts generalizing docs with
  | nil => rfl
  | cons text texts ih =>
    rw [helped, List.map_cons, ih]
    cases docs with
    | nil => simp [List.replicate_succ]
    | cons doc docs =>
      simp [List.take_append]
      omega

theorem helped_append (docs texts more : List String) :
    helped docs (texts ++ more) = helped docs texts ++ helped (docs.drop texts.length) more := by
  induction texts generalizing docs with
  | nil => rfl
  | cons text texts ih => simp [helped, ih]

theorem flatten_helpedLevels (docs : List String) (levels : List (List String)) :
    (helpedLevels docs levels).flatten = helped docs levels.flatten := by
  induction levels generalizing docs with
  | nil => rfl
  | cons texts levels ih =>
    rw [helpedLevels, List.flatten_cons, List.flatten_cons, ih, helped_append]

theorem map_token_helpedLevels (docs : List String) (levels : List (List String)) :
    (helpedLevels docs levels).map (·.map (·.token)) = levels.map (·.map Token.ofText) := by
  induction levels generalizing docs with
  | nil => rfl
  | cons texts levels ih =>
    rw [helpedLevels, List.map_cons, List.map_cons, ih, map_token_helped]

/-- A level of one token in brackets. -/
def isLoneOptional : List String → Bool
  | [text] => text.toList.head? == some '['
  | _ => false

theorem Token.isOptional_ofText (text : String) :
    (Token.ofText text).isOptional = (text.toList.head? == some '[') := by
  unfold Token.ofText
  split_ifs with hbracket hshort <;> simp [Token.isOptional, hbracket]

theorem isOptional_helped (docs texts : List String) :
    Level.isOptional (helped docs texts) = isLoneOptional texts := by
  rcases texts with _ | ⟨text, _ | ⟨other, others⟩⟩
  · rfl
  · exact Token.isOptional_ofText text
  · rfl

theorem mandatory_helpedLevels (docs : List String) (levels : List (List String)) :
    mandatory (helpedLevels docs levels) =
      (levels.takeWhile (!isLoneOptional ·)).length := by
  unfold mandatory
  induction levels generalizing docs with
  | nil => rfl
  | cons texts levels ih =>
    rw [helpedLevels, List.takeWhile_cons, List.takeWhile_cons, isOptional_helped]
    split_ifs
    · rw [List.length_cons, List.length_cons, ih]
    · rfl

end Helped

/-- A pattern written from levels has these levels, its help goes to the tokens in reading
    order as long as there is any, and it may end before the first lone token in brackets. -/
theorem compile_written {levels : List (List String)} (hne : levels ≠ [])
    (hlevels : ∀ texts ∈ levels, IsWritable texts) {help : List String}
    (hhelp : ∀ line ∈ help, IsHelpLine line) {doc : String}
    (hdoc : doc = "\n".intercalate help ∨ doc = joinLines help) :
    ∃ result, compile (Text.unwords (levels.map Element.writtenLevel)) doc = .ok result ∧
      result.map (·.map (·.text)) = levels ∧
      result.map (·.map (·.token)) = levels.map (·.map Token.ofText) ∧
      result.flatten.map (·.doc) =
        (help ++ List.replicate levels.flatten.length "").take levels.flatten.length ∧
      mandatory result = (levels.takeWhile (!isLoneOptional ·)).length := by
  have hdocs : docLines doc = help := by
    rcases hdoc with rfl | rfl
    · exact docLines_intercalate hhelp
    · exact docLines_joinLines hhelp
  have htokens := map_token_helpedLevels help levels
  have hsome : [] ++ helpedLevels help levels ≠ [] := by
    intro hnil
    rw [List.nil_append] at hnil
    rw [hnil] at htokens
    exact hne (List.map_eq_nil_iff.1 htokens.symm)
  refine ⟨helpedLevels help levels, ?_, ?_, htokens, ?_, mandatory_helpedLevels help levels⟩
  · obtain ⟨texts, more, rfl⟩ := List.exists_cons_of_ne_nil hne
    rw [compile, hdocs, ← compileFrom_congr (takeMarks_space _ _), toList_unwords,
      compileFrom_spaced hlevels help hsome, List.nil_append]
  · have htexts := congrArg (·.map (·.map Token.text)) htokens
    simpa [List.map_map, Function.comp_def, Alternative.text] using htexts
  · rw [flatten_helpedLevels, map_doc_helped]

/-- A group whose last alternative is empty, an optional word, and help that runs out. -/
theorem compile_written_password :
    ∃ result, compile "password (8|) WORD [<0-9>] last" "Password\nEncrypted\nPlain\n" =
        .ok result ∧
      result.map (·.map (·.text)) = [["password"], ["8", ""], ["WORD"], ["[<0-9>]"], ["last"]] ∧
      result.flatten.map (·.doc) = ["Password", "Encrypted", "Plain", "", "", ""] ∧
      mandatory result = 3 := by
  obtain ⟨result, hcompile, htexts, -, hdocs, hmandatory⟩ :=
    @compile_written [["password"], ["8", ""], ["WORD"], ["[<0-9>]"], ["last"]] (by decide)
      (by decide +kernel) ["Password", "Encrypted", "Plain"] (by decide +kernel)
      "Password\nEncrypted\nPlain\n" (.inr rfl)
  exact ⟨result, hcompile, htexts, hdocs, hmandatory⟩

end RouterCli
