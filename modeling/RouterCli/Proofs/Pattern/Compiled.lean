import Mathlib.Tactic.SplitIfs
import RouterCli.Command.Basic

/-!
  RouterCli.Proofs.Pattern.Compiled

  What compiling says about the tokens of a command. Each of them was read from
  one word of the pattern (`forall_mem_compileFrom`), so its text tells its shape: a text
  with a dot first is the free text and no keyword. Sorting the last level keeps this.
-/

namespace RouterCli

-- ============================================================================
-- Tokens as they are read
-- ============================================================================

namespace Shape

/-- Only a dot in front makes a free text. -/
theorem ofText_eq_vararg_iff (text : String) :
    ofText text = .vararg ↔ text.toList.head? = some '.' := by
  constructor
  · intro h
    unfold ofText at h
    split at h
    · assumption
    · simp at h
    · split_ifs at h
  · intro h
    simp [ofText, h]

end Shape

namespace Token

/-- A token has the text that it was read from. -/
@[simp] theorem text_ofText (text : String) : (ofText text).text = text := by
  unfold ofText
  split_ifs <;> rfl

/-- The token was read from a word of a pattern. -/
def IsRead (t : Token) : Prop :=
  ∃ text, t = ofText text

/-- The atom of a token that was read has the shape its text is written in. -/
theorem IsRead.shape_eq {t : Token} (h : t.IsRead) {a : Atom} (ha : t.atom? = some a) :
    a.shape = Shape.ofText a.text := by
  obtain ⟨text, rfl⟩ := h
  unfold ofText at ha
  split at ha
  · split at ha
    · simp [atom?] at ha
    · simp only [atom?, Option.some.injEq] at ha
      subst ha
      rfl
  · simp only [atom?, Option.some.injEq] at ha
    subst ha
    rfl

end Token

-- ============================================================================
-- Levels
-- ============================================================================

/-- All tokens of the levels were read from a pattern. -/
def AreRead (levels : List Level) : Prop :=
  ∀ level ∈ levels, ∀ a ∈ level, a.token.IsRead

/-- A level of tokens given by their texts, without help. -/
def Level.ofTexts (texts : List String) : Level :=
  texts.map fun text => ⟨.ofText text, ""⟩

theorem areRead_map_ofTexts (texts : List (List String)) :
    AreRead (texts.map Level.ofTexts) := by
  intro level hl a ha
  obtain ⟨ts, -, rfl⟩ := List.mem_map.1 hl
  obtain ⟨text, -, rfl⟩ := List.mem_map.1 ha
  exact ⟨text, rfl⟩

-- ============================================================================
-- Reading a pattern
-- ============================================================================

theorem takeMark_suffix (mark : Char) (after : Grouping) (s : Grouping × List Char) :
    (takeMark mark after s).2 <:+ s.2 := by
  obtain ⟨g, _ | ⟨c, rest⟩⟩ := s
  · exact List.suffix_rfl
  · unfold takeMark
    dsimp only
    split_ifs
    · exact List.suffix_cons c rest
    · exact List.suffix_rfl

theorem takeBar_suffix {s t : Grouping × List Char} (h : takeBar s = .ok t) : t.2 <:+ s.2 := by
  unfold takeBar at h
  split at h
  · split_ifs at h
    cases h
    exact List.suffix_cons _ _
  · cases h
    exact List.suffix_rfl

theorem takeMarks_suffix {s t : Grouping × List Char} (h : takeMarks s = .ok t) :
    t.2 <:+ s.2 := by
  obtain ⟨u, hbar, rfl⟩ := takeMarks_eq_ok h
  have hopen : (takeMark '(' .opened (dropBlanks s)).2 <:+ s.2 :=
    (takeMark_suffix _ _ _).trans (List.dropWhile_suffix _)
  have hclose := (takeBar_suffix hbar).trans ((takeMark_suffix _ _ _).trans hopen)
  exact (takeMark_suffix _ _ _).trans ((List.dropWhile_suffix _).trans hclose)

theorem takeMarks_of_takeToken_error {g : Grouping} {cs : List Char} {defect : PatternDefect}
    (h : takeToken g cs = .error defect) : takeMarks (g, cs) = .error defect := by
  unfold takeToken at h
  cases hmarks : takeMarks (g, cs) with
  | error other =>
    rw [hmarks] at h
    exact congrArg Except.error (Except.error.inj h)
  | ok t =>
    rw [hmarks] at h
    simp only [bind, Except.bind, pure, Except.pure] at h
    split_ifs at h

theorem takeMarks_of_takeToken_inl {g g' : Grouping} {cs : List Char}
    (h : takeToken g cs = .ok (.inl g')) : takeMarks (g, cs) = .ok (g', []) := by
  obtain ⟨t, hmarks, ⟨hend, hresult⟩ | ⟨-, hresult⟩⟩ := takeToken_eq_ok h
  · obtain rfl := Sum.inl.inj hresult
    rw [hmarks]
    exact congrArg Except.ok (Prod.ext rfl hend)
  · cases hresult

theorem takeMarks_of_takeToken_inr {g : Grouping} {cs : List Char} {found : FoundToken}
    (h : takeToken g cs = .ok (.inr found)) :
    ∃ t, takeMarks (g, cs) = .ok t ∧ t.2 ≠ [] ∧
      found = ⟨t.2.takeWhile (!endsToken ·), t.1, t.2.dropWhile (!endsToken ·)⟩ := by
  obtain ⟨t, hmarks, ⟨-, hresult⟩ | ⟨hne, hresult⟩⟩ := takeToken_eq_ok h
  · cases hresult
  · exact ⟨t, hmarks, hne, Sum.inr.inj hresult⟩

/-- What a pass finds and what it leaves are parts of the text it reads. -/
theorem takeToken_subset {g : Grouping} {cs : List Char} {found : FoundToken}
    (h : takeToken g cs = .ok (.inr found)) : found.text ⊆ cs ∧ found.rest ⊆ cs := by
  obtain ⟨t, hmarks, -, rfl⟩ := takeMarks_of_takeToken_inr h
  have hsuffix := takeMarks_suffix hmarks
  exact ⟨List.Subset.trans (List.takeWhile_prefix _).subset hsuffix.subset,
    List.Subset.trans (List.dropWhile_suffix _).subset hsuffix.subset⟩

section Alternatives

variable {holds : Alternative → Prop} {levels : List Level}

theorem addAlternative_within {a : Alternative} {last : Level} (h : levels.getLast? = some last) :
    addAlternative .within levels a = levels.dropLast ++ [last ++ [a]] := by
  simp [addAlternative, h]

theorem addAlternative_of_ne_within {g : Grouping} {a : Alternative} (h : g ≠ .within) :
    addAlternative g levels a = levels ++ [[a]] := by
  unfold addAlternative
  split
  · exact absurd rfl h
  · rfl

theorem forall_mem_addAlternative (h : ∀ level ∈ levels, ∀ a ∈ level, holds a) (g : Grouping)
    {a : Alternative} (ha : holds a) :
    ∀ level ∈ addAlternative g levels a, ∀ b ∈ level, holds b := by
  have hnew : ∀ level ∈ levels ++ [[a]], ∀ b ∈ level, holds b := by
    intro level hl b hb
    rcases List.mem_append.1 hl with hl | hl
    · exact h level hl b hb
    · rw [List.mem_singleton.1 hl] at hb
      rw [List.mem_singleton.1 hb]
      exact ha
  unfold addAlternative
  split
  · rename_i last hlast
    have hmem : last ∈ levels := List.mem_of_getLast? hlast
    intro level hl b hb
    rcases List.mem_append.1 hl with hl | hl
    · exact h level (List.dropLast_subset levels hl) b hb
    · rw [List.mem_singleton.1 hl] at hb
      rcases List.mem_append.1 hb with hb | hb
      · exact h last hmem b hb
      · rw [List.mem_singleton.1 hb]
        exact ha
  · exact hnew

/-- What holds of each token that is read from a part of the text holds of all. -/
theorem forall_mem_compileFrom (g : Grouping) (cs : List Char) (docs : List String)
    (levels : List Level) (h : ∀ level ∈ levels, ∀ a ∈ level, holds a)
    (hread : ∀ text doc, text ⊆ cs → holds ⟨Token.ofText (String.ofList text), doc⟩)
    {result : List Level} (hr : compileFrom g cs docs levels = .ok result) :
    ∀ level ∈ result, ∀ a ∈ level, holds a := by
  fun_induction compileFrom g cs docs levels with
  | case1 => cases hr
  | case2 => cases hr
  | case3 => cases hr
  | case4 =>
    obtain rfl := Except.ok.inj hr
    exact h
  | case5 g cs docs levels found hfound alternative ih =>
    obtain ⟨htext, hrest⟩ := takeToken_subset hfound
    exact ih (forall_mem_addAlternative h found.grouping (hread _ _ htext))
      (fun text doc hpart => hread text doc (List.Subset.trans hpart hrest)) hr

end Alternatives

theorem areRead_of_compileFrom (g : Grouping) (cs : List Char) (docs : List String)
    (levels : List Level) (h : AreRead levels) {result : List Level}
    (hr : compileFrom g cs docs levels = .ok result) : AreRead result :=
  forall_mem_compileFrom g cs docs levels h (fun _ _ _ => ⟨_, rfl⟩) hr

theorem AreRead.sortLastLevel {levels : List Level} (h : AreRead levels) :
    AreRead (sortLastLevel levels) := by
  unfold RouterCli.sortLastLevel
  split
  · exact h
  · rename_i last hlast
    intro level hl b hb
    rcases List.mem_append.1 hl with hl | hl
    · exact h level (List.dropLast_subset levels hl) b hb
    · rw [List.mem_singleton.1 hl, List.mem_mergeSort] at hb
      exact h last (List.mem_of_getLast? hlast) b hb

-- ============================================================================
-- Commands
-- ============================================================================

namespace Element

/-- The element has levels as compiling makes them, sorted or not. -/
def IsCompiled (e : Element) : Prop :=
  AreRead e.levels

theorem isCompiled_of_ofSpec {spec : CommandSpec} {e : Element} (h : ofSpec spec = .ok e) :
    e.IsCompiled := by
  unfold ofSpec compile at h
  cases hc : compileFrom .outside spec.pattern.toList (docLines spec.doc) [] with
  | error defect => simp [hc, Except.map] at h
  | ok levels =>
    simp only [hc, Except.map, Except.ok.injEq] at h
    subst h
    exact areRead_of_compileFrom _ _ _ [] (by intro level hl; simp at hl) hc

theorem IsCompiled.sortLast {e : Element} (h : e.IsCompiled) : e.sortLast.IsCompiled :=
  AreRead.sortLastLevel h

/-- How a pattern writes a level of these tokens. -/
def writtenLevel : List String → String
  | [text] => text
  | texts => "(" ++ "|".intercalate texts ++ ")"

/-- The command whose levels have these tokens, without help. -/
def ofTexts (texts : List (List String)) : Element where
  spec :=
    { action := .application (Text.unwords (texts.map writtenLevel))
      pattern := Text.unwords (texts.map writtenLevel)
      doc := "" }
  levels := texts.map Level.ofTexts

theorem isCompiled_ofTexts (texts : List (List String)) : (ofTexts texts).IsCompiled :=
  areRead_map_ofTexts texts

/-- The atoms at a position have the shapes their texts are written in. -/
theorem IsCompiled.shape_eq {e : Element} (h : e.IsCompiled) {index : Nat} {level : Level}
    (hl : e.level? index = some level) {alt : Alternative} (halt : alt ∈ level) {a : Atom}
    (ha : alt.token.atom? = some a) : a.shape = Shape.ofText a.text :=
  (h level (List.mem_of_getElem? hl) alt halt).shape_eq ha

end Element

end RouterCli
