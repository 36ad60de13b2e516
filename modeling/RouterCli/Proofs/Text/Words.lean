import RouterCli.Console.Replay

/-!
  RouterCli.Proofs.Text.Words

  Words and lines that are put together come apart again: words between single
  spaces (`words_unwords`), and lines with a line feed behind each
  (`lines_ofString_joinLines`). A line that is no comment is split into all of its
  words (`Line.words_parse`).
-/

namespace RouterCli

namespace Text

-- ============================================================================
-- Words
-- ============================================================================

/-- A word: it is not empty and holds no blank. -/
def IsWord (w : String) : Prop :=
  w ≠ "" ∧ ∀ c ∈ w.toList, isBlank c = false

instance (w : String) : Decidable (IsWord w) :=
  decidable_of_iff (w ≠ "" ∧ (w.toList.all fun c => !isBlank c) = true) (by simp [IsWord])

theorem IsWord.toList_ne_nil {w : String} (h : IsWord w) : w.toList ≠ [] := by
  intro hnil
  exact h.1 (String.toList_inj.1 (by simp [hnil]))

theorem areWords_concat (ws : List String) {w : String} (hws : ∀ v ∈ ws, IsWord v)
    (hw : IsWord w) : ∀ v ∈ ws ++ [w], IsWord v :=
  List.forall_mem_append.2 ⟨hws, List.forall_mem_singleton.2 hw⟩

theorem forall_consWord {c : Char} {ws : List (List Char)} (hc : isBlank c = false)
    (h : ∀ w ∈ ws, w ≠ [] ∧ ∀ c ∈ w, isBlank c = false) :
    ∀ w ∈ consWord c ws, w ≠ [] ∧ ∀ c ∈ w, isBlank c = false := by
  intro w hw
  cases ws with
  | nil =>
    rw [consWord, List.mem_singleton] at hw
    simp [hw, hc]
  | cons v vs =>
    rw [consWord, List.mem_cons] at hw
    rcases hw with rfl | hw
    · refine ⟨by simp, ?_⟩
      intro d hd
      rcases List.mem_cons.1 hd with rfl | hd
      · exact hc
      · exact (h v (by simp)).2 d hd
    · exact h w (by simp [hw])

theorem forall_wordRuns (cs : List Char) :
    ∀ w ∈ wordRuns cs, w ≠ [] ∧ ∀ c ∈ w, isBlank c = false := by
  induction cs with
  | nil => simp [wordRuns]
  | cons c cs ih =>
    unfold wordRuns
    by_cases hc : isBlank c
    · rw [if_pos hc]
      exact ih
    · have hc : isBlank c = false := by simpa using hc
      rw [if_neg (by simp [hc])]
      split
      · intro w hw
        rcases List.mem_cons.1 hw with rfl | hw
        · simp [hc]
        · exact ih w hw
      · exact forall_consWord hc ih

theorem isWord_of_mem_words {s w : String} (h : w ∈ words s) : IsWord w := by
  obtain ⟨r, hr, rfl⟩ := List.mem_map.1 h
  obtain ⟨hne, hblank⟩ := forall_wordRuns s.toList r hr
  refine ⟨?_, by simpa using hblank⟩
  intro hempty
  exact hne (by simpa using congrArg String.toList hempty)

theorem wordRuns_of_forall {cs : List Char} (hne : cs ≠ [])
    (h : ∀ c ∈ cs, isBlank c = false) : wordRuns cs = [cs] := by
  induction cs with
  | nil => exact absurd rfl hne
  | cons c cs ih =>
    have hc := h c (by simp)
    cases cs with
    | nil => simp [wordRuns, hc]
    | cons d cs =>
      have hd := h d (by simp)
      rw [wordRuns, if_neg (by simp [hc]), List.head?_cons, Option.all_some, hd,
        if_neg (by simp), ih (by simp) fun e he => h e (by simp [he])]
      rfl

theorem wordRuns_ne_nil {c : Char} {cs : List Char} (hc : isBlank c = false) :
    wordRuns (c :: cs) ≠ [] := by
  rw [wordRuns, if_neg (by simp [hc])]
  split
  · simp
  · cases wordRuns cs <;> simp [consWord]

theorem wordRuns_eq_nil_iff {cs : List Char} :
    wordRuns cs = [] ↔ ∀ c ∈ cs, isBlank c = true := by
  induction cs with
  | nil => simp [wordRuns]
  | cons c cs ih =>
    by_cases hc : isBlank c = true
    · rw [wordRuns, if_pos hc, ih]
      simp [hc]
    · have hne : wordRuns (c :: cs) ≠ [] := wordRuns_ne_nil (by simpa using hc)
      simp [hne, hc]

theorem words_eq_nil_iff (s : String) : words s = [] ↔ isAllBlank s = true := by
  rw [words, List.map_eq_nil_iff, wordRuns_eq_nil_iff, isAllBlank, List.all_eq_true]

/-- Blanks in front do not count. -/
theorem wordRuns_dropWhile {p : Char → Bool} (hp : ∀ c, p c = true → isBlank c = true)
    (cs : List Char) : wordRuns (cs.dropWhile p) = wordRuns cs := by
  induction cs with
  | nil => rfl
  | cons c cs ih =>
    by_cases hc : p c = true
    · rw [List.dropWhile_cons_of_pos hc, ih, wordRuns, if_pos (hp c hc)]
    · rw [List.dropWhile_cons_of_neg hc]

/-- A blank stands between words. -/
theorem wordRuns_append {b : Char} (hb : isBlank b) (as bs : List Char) :
    wordRuns (as ++ b :: bs) = wordRuns as ++ wordRuns bs := by
  induction as with
  | nil => simp [wordRuns, hb]
  | cons a as ih =>
    rw [List.cons_append, wordRuns, wordRuns]
    by_cases ha : isBlank a
    · rw [if_pos ha, if_pos ha, ih]
    · rw [if_neg ha, if_neg ha, ih]
      cases as with
      | nil => simp [hb, wordRuns]
      | cons c cs =>
        by_cases hc : isBlank c
        · simp [hc]
        · have hne : wordRuns (c :: cs) ≠ [] := wordRuns_ne_nil (by simpa using hc)
          obtain ⟨w, ws, hw⟩ := List.exists_cons_of_ne_nil hne
          simp [hc, hw, consWord]

theorem words_append (s t : String) : words (s ++ " " ++ t) = words s ++ words t := by
  have h : (s ++ " " ++ t).toList = s.toList ++ ' ' :: t.toList := by simp
  rw [words, h, wordRuns_append rfl, List.map_append]
  rfl

theorem words_of_isWord {w : String} (h : IsWord w) : words w = [w] := by
  rw [words, wordRuns_of_forall h.toList_ne_nil h.2]
  simp

theorem isWord_toString (n : Nat) : IsWord (toString n) := by
  have hblank : ∀ c : Char, c.isDigit = true → isBlank c = false := by
    intro c hc
    rw [Char.isDigit, Bool.and_eq_true, decide_eq_true_eq, decide_eq_true_eq] at hc
    have hlow : 48 ≤ c.toNat := hc.1
    have hhigh : c.toNat ≤ 57 := hc.2
    simp only [isBlank, Bool.or_eq_false_iff, Bool.and_eq_false_iff, decide_eq_false_iff_not,
      beq_eq_false_iff_ne]
    omega
  refine ⟨by simp, fun c hc => hblank c (isDigit_of_mem_toString hc)⟩

-- ============================================================================
-- Words with spaces between them
-- ============================================================================

theorem unwords_cons_cons (w v : String) (ws : List String) :
    unwords (w :: v :: ws) = w ++ " " ++ unwords (v :: ws) := by
  simp [unwords, String.intercalate_cons_cons]

theorem unwords_singleton (w : String) : unwords [w] = w := by
  simp [unwords]

theorem unwords_append {ws : List String} (hne : ws ≠ []) (v : String) (vs : List String) :
    unwords (ws ++ v :: vs) = unwords ws ++ " " ++ unwords (v :: vs) := by
  induction ws with
  | nil => exact absurd rfl hne
  | cons w ws ih =>
    cases ws with
    | nil => rw [List.singleton_append, unwords_cons_cons, unwords_singleton]
    | cons u us =>
      rw [List.cons_append, List.cons_append, unwords_cons_cons, ← List.cons_append,
        ih (List.cons_ne_nil u us), unwords_cons_cons w]
      simp only [String.append_assoc]

/-- Words with spaces between them are the words of the text they make. -/
theorem words_unwords {ws : List String} (h : ∀ w ∈ ws, IsWord w) : words (unwords ws) = ws := by
  induction ws with
  | nil => rfl
  | cons w ws ih =>
    have hw := h w List.mem_cons_self
    cases ws with
    | nil => rw [unwords_singleton, words_of_isWord hw]
    | cons v vs =>
      rw [unwords_cons_cons, words_append, words_of_isWord hw,
        ih fun u hu => h u (List.mem_cons_of_mem w hu)]
      rfl

theorem isBlank_of_isLineBreak {c : Char} (h : isLineBreak c = true) : isBlank c = true := by
  rw [isLineBreak, Bool.or_eq_true, beq_iff_eq, beq_iff_eq] at h
  rcases h with rfl | rfl <;> rfl

theorem IsWord.isLineBreak {w : String} (h : IsWord w) {c : Char} (hc : c ∈ w.toList) :
    isLineBreak c = false := by
  cases hbreak : Text.isLineBreak c with
  | false => rfl
  | true => exact absurd (isBlank_of_isLineBreak hbreak) (by simp [h.2 c hc])

theorem isLineBreak_unwords {ws : List String} (h : ∀ w ∈ ws, IsWord w) :
    ∀ c ∈ (unwords ws).toList, isLineBreak c = false := by
  induction ws with
  | nil => simp [unwords]
  | cons w ws ih =>
    have hw := h w List.mem_cons_self
    cases ws with
    | nil =>
      rw [unwords_singleton]
      exact fun c hc => hw.isLineBreak hc
    | cons v vs =>
      rw [unwords_cons_cons, String.toList_append, String.toList_append]
      refine List.forall_mem_append.2 ⟨List.forall_mem_append.2 ⟨?_, ?_⟩, ?_⟩
      · exact fun c hc => hw.isLineBreak hc
      · exact List.forall_mem_singleton.2 rfl
      · exact ih fun u hu => h u (List.mem_cons_of_mem w hu)

-- ============================================================================
-- Printable texts
-- ============================================================================

/-- No control character is in the text. -/
def IsPrintable (text : String) : Prop :=
  ∀ c ∈ text.toList, isControl c = false

instance (text : String) : Decidable (IsPrintable text) :=
  decidable_of_iff ((text.toList.all fun c => !isControl c) = true) (by simp [IsPrintable])

theorem IsPrintable.append {s t : String} (hs : IsPrintable s) (ht : IsPrintable t) :
    IsPrintable (s ++ t) := by
  unfold IsPrintable
  rw [String.toList_append, List.forall_mem_append]
  exact ⟨hs, ht⟩

theorem IsPrintable.of_subset {s t : String} (ht : IsPrintable t)
    (hsubset : s.toList ⊆ t.toList) : IsPrintable s :=
  fun c hc => ht c (hsubset hc)

theorem isPrintable_singleton {c : Char} (hc : isControl c = false) :
    IsPrintable (String.singleton c) := by
  unfold IsPrintable
  rw [String.toList_singleton, List.forall_mem_singleton]
  exact hc

-- ============================================================================
-- Lines
-- ============================================================================

theorem trimLineBreaks_of_forall {s : String} (h : ∀ c ∈ s.toList, isLineBreak c = false) :
    trimLineBreaks s = s := by
  have hdrop : s.toList.reverse.dropWhile isLineBreak = s.toList.reverse := by
    cases hs : s.toList.reverse with
    | nil => rfl
    | cons c cs =>
      have hc : c ∈ s.toList := by
        rw [← List.mem_reverse, hs]
        simp
      rw [List.dropWhile_cons_of_neg (by simp [h c hc])]
  rw [trimLineBreaks, hdrop, List.reverse_reverse, String.ofList_toList]

end Text

namespace Line

/-- Behind the blanks in front stands the mark of a comment. -/
def isComment (text : String) : Bool :=
  (text.toList.dropWhile Text.isBlank).head?.any fun c => c == '!' || c == '#'

theorem wordsOf_cons (c : Char) (cs : List Char) :
    wordsOf (c :: cs) =
      if c = '!' ∨ c = '#' then [] else (Text.wordRuns (c :: cs)).map String.ofList := by
  unfold wordsOf
  rw [List.head?_cons]
  split
  · rename_i h
    rw [if_pos (.inl (Option.some.inj h))]
  · rename_i h
    rw [if_pos (.inr (Option.some.inj h))]
  · rename_i hbang hhash
    rw [if_neg]
    rintro (rfl | rfl)
    · exact hbang rfl
    · exact hhash rfl

/-- A line that is no comment is split into all of its words. -/
theorem words_parse {text : String} (h : isComment text = false) :
    (parse text).words = Text.words text := by
  unfold isComment at h
  unfold parse Text.words
  dsimp only
  rw [← Text.wordRuns_dropWhile (fun _ hc => hc) text.toList]
  cases hbody : text.toList.dropWhile Text.isBlank with
  | nil => rfl
  | cons c body =>
    rw [hbody, List.head?_cons, Option.any_some, Bool.or_eq_false_iff, beq_eq_false_iff_ne,
      beq_eq_false_iff_ne] at h
    rw [wordsOf_cons, if_neg (not_or.2 h)]

theorem words_parse_of_isComment {text : String} (h : isComment text = true) :
    (parse text).words = [] := by
  unfold isComment at h
  unfold parse
  dsimp only
  cases hbody : text.toList.dropWhile Text.isBlank with
  | nil => rfl
  | cons c body =>
    rw [hbody, List.head?_cons, Option.any_some, Bool.or_eq_true, beq_iff_eq, beq_iff_eq] at h
    rw [wordsOf_cons, if_pos h]

/-- The lines without words are those of blanks alone and the comments. -/
theorem isEmpty_parse (text : String) :
    (parse text).isEmpty = (Text.isAllBlank text || isComment text) := by
  cases hcomment : isComment text with
  | false =>
    rw [Bool.or_false, isEmpty, words_parse hcomment, Bool.eq_iff_iff, List.isEmpty_iff,
      Text.words_eq_nil_iff]
  | true =>
    rw [Bool.or_true, isEmpty, words_parse_of_isComment hcomment]
    rfl

end Line

namespace ConfigText

theorem rawLines_append {isBreak : Char → Bool} {b : Char} (hb : isBreak b) {l : List Char}
    (hl : ∀ c ∈ l, isBreak c = false) (rest : List Char) :
    rawLines isBreak (l ++ b :: rest) = l :: rawLines isBreak rest := by
  induction l with
  | nil => simp [rawLines, hb]
  | cons c l ih =>
    have hc := hl c (by simp)
    have ih := ih fun d hd => hl d (by simp [hd])
    rw [List.cons_append]
    conv => lhs; unfold rawLines
    rw [if_neg (by simp [hc])]
    cases hrest : l ++ b :: rest with
    | nil => simp at hrest
    | cons d ds =>
      rw [hrest] at ih
      rw [ih]

/-- Lines with a line feed behind each are the lines of the text they make. -/
theorem lines_ofString_joinLines {ls : List String}
    (h : ∀ l ∈ ls, ∀ c ∈ l.toList, Text.isLineBreak c = false) :
    (ofString (joinLines ls)).lines = ls := by
  have hlines : ∀ ls : List String, (∀ l ∈ ls, ∀ c ∈ l.toList, Text.isLineBreak c = false) →
      rawLines (· == '\n') (joinLines ls).toList = ls.map String.toList := by
    intro ls h
    induction ls with
    | nil => rfl
    | cons l ls ih =>
      have hjoin : (joinLines (l :: ls)).toList = l.toList ++ '\n' :: (joinLines ls).toList := by
        simp [joinLines]
      rw [hjoin, rawLines_append (by rfl), ih fun m hm => h m (by simp [hm]), List.map_cons]
      intro c hc
      have hbreak := h l (by simp) c hc
      simp only [Text.isLineBreak, Bool.or_eq_false_iff] at hbreak
      exact hbreak.2
  rw [ofString, hlines ls h, List.map_map]
  refine (List.map_congr_left fun l hl => ?_).trans (List.map_id ls)
  simpa using Text.trimLineBreaks_of_forall (h l hl)

end ConfigText

end RouterCli
