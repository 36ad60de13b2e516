import RouterCli.Proofs.Matching.Found
import RouterCli.Proofs.Matching.Offered
import RouterCli.Proofs.Pattern.Compiled

/-!
  RouterCli.Proofs.Matching.Visible

  Whether help and completion keep to what commands that are shown have for tokens.
  Help looks at a command's visibility for the level under the cursor
  (`exists_of_mem_helpOf`), but behind a free text it lists the last tokens of
  all commands that are left; completion never looks at it. Both show a text that is
  no token of a shown command exactly where those paths meet a command that is not
  shown (`shows_public_iff`).
-/

namespace RouterCli

-- ============================================================================
-- What may be shown
-- ============================================================================

/-- Some command that is shown has a token of this text. -/
def IsPublic (elements : List Element) (text : String) : Prop :=
  ∃ e ∈ elements, e.isVisible = true ∧ ∃ level ∈ e.levels, ∃ a ∈ level, a.text = text

/-- What is put in the place of the word under the cursor, and what is listed, are
    such texts, and what the word grows to begins one. -/
def Completion.IsPublic (elements : List Element) : Completion → Prop
  | .full keyword => RouterCli.IsPublic elements keyword
  | .shared start =>
    ∃ text, RouterCli.IsPublic elements text ∧ Text.startsWith text start = true
  | .choices keywords => ∀ keyword ∈ keywords, RouterCli.IsPublic elements keyword

instance (elements : List Element) (text : String) : Decidable (IsPublic elements text) :=
  inferInstanceAs (Decidable (∃ e ∈ elements, e.isVisible = true ∧
    ∃ level ∈ e.levels, ∃ a ∈ level, a.text = text))

/-- Completion offers the keyword of the command at the cursor. -/
def Element.Offers (e : Element) (line : PartialLine) (keyword : String) : Prop :=
  ∃ level, e.level? line.index = some level ∧
    ∃ a ∈ level, completes line.current a.token = true ∧ a.text = keyword

theorem IsPublic.of_offers {elements : List Element} {e : Element} (he : e ∈ elements)
    (hvisible : e.isVisible = true) {line : PartialLine} {keyword : String}
    (h : e.Offers line keyword) : IsPublic elements keyword := by
  obtain ⟨level, hlevel, a, ha, -, htext⟩ := h
  exact ⟨e, he, hvisible, level, List.mem_of_getElem? hlevel, a, ha, htext⟩

-- ============================================================================
-- Help
-- ============================================================================

/-- At the cursor help tells tokens of shown commands only. -/
theorem exists_of_mem_helpOf {index : Nat} {current : Option String} {e : Element}
    {item : HelpItem} (h : item ∈ helpOf index current e) (hne : item ≠ .endOfCommand) :
    e.isVisible = true ∧ ∃ level ∈ e.levels, ∃ a ∈ level, item = .token a := by
  unfold helpOf at h
  cases hvisible : e.isVisible with
  | false => simp [hvisible] at h
  | true =>
    rw [hvisible, Bool.not_true, if_neg Bool.false_ne_true] at h
    refine ⟨rfl, ?_⟩
    split at h
    · rename_i level hlevel
      obtain ⟨a, ha, rfl⟩ := List.mem_map.1 h
      exact ⟨level, List.mem_of_getElem? hlevel, a, (List.mem_filter.1 ha).1, rfl⟩
    · split_ifs at h
      · exact absurd (List.mem_singleton.1 h) hne
      · cases h

theorem mem_of_mem_narrowTo {current : Option String} {index : Nat} {cs : Candidates}
    {e : Element} (h : e ∈ narrowTo current index cs) : e ∈ cs := by
  cases current with
  | none => exact h
  | some word => exact (Candidates.mem_narrow_iff.1 h).1

/-- Behind a free text help tells the last tokens of whatever commands are left. -/
theorem mem_helpAfterVararg_iff {cs : Candidates} {item : HelpItem} :
    item ∈ helpAfterVararg cs ↔
      item = .endOfCommand ∨ ∃ e ∈ cs, ∃ a ∈ e.levels.getLast?.getD [], item = .token a := by
  simp only [helpAfterVararg, List.mem_append, List.mem_flatMap, List.mem_map,
    List.mem_singleton, eq_comm (a := item), or_comm]

theorem mem_of_mem_getLast? {levels : List Level} {a : Alternative}
    (h : a ∈ levels.getLast?.getD []) : ∃ level ∈ levels, a ∈ level := by
  cases hlast : levels.getLast? with
  | none =>
    rw [hlast] at h
    cases h
  | some level =>
    rw [hlast] at h
    exact ⟨level, List.mem_of_getLast? hlast, h⟩

/-- Help tells nothing but tokens of shown commands, and the end of a command. -/
def HelpIsPublic (elements : List Element) (line : PartialLine) : Prop :=
  ∀ items, describe elements line = .ok items →
    ∀ item ∈ items, item.text ≠ endOfCommandText → IsPublic elements item.text

/-- The commands that a free text leaves and that are not shown end in tokens of
    commands that are. -/
def FreeTextIsPublic (elements : List Element) (line : PartialLine) : Prop :=
  ∀ s, scan .any 0 elements line.words = .ok s → s.atVararg = true →
    ∀ e ∈ s.survivors, e.isVisible = false →
      ∀ a ∈ e.levels.getLast?.getD [], a.text ≠ endOfCommandText → IsPublic elements a.text

theorem helpIsPublic_iff (elements : List Element) (line : PartialLine) :
    HelpIsPublic elements line ↔ FreeTextIsPublic elements line := by
  unfold HelpIsPublic FreeTextIsPublic
  rw [describe_eq]
  constructor
  · intro h s hscan hvararg e he hhidden a ha hne
    rw [hscan] at h
    dsimp only at h
    rw [if_pos hvararg] at h
    have hmem : HelpItem.token a ∈ helpAfterVararg s.survivors :=
      mem_helpAfterVararg_iff.2 (.inr ⟨e, he, a, ha, rfl⟩)
    -- Only the first entry of a text is listed, which need not be this one.
    obtain ⟨item, hitem, htext⟩ := exists_mem_distinctBy HelpItem.text hmem
    have hsame : item.text = a.text := htext
    have hpublic := h _ rfl item hitem (hsame ▸ hne)
    rwa [hsame] at hpublic
  · intro h items hdescribe item hitem hne
    cases hscan : scan .any 0 elements line.words with
    | error e =>
      rw [hscan] at hdescribe
      cases hdescribe
    | ok s =>
      rw [hscan] at hdescribe
      dsimp only at hdescribe
      have hend : item ≠ .endOfCommand := fun heq => hne (congrArg HelpItem.text heq)
      by_cases hvararg : s.atVararg = true
      · rw [if_pos hvararg] at hdescribe
        cases hdescribe
        rcases mem_helpAfterVararg_iff.1 (mem_of_mem_distinctBy hitem) with
          heq | ⟨e, he, a, ha, rfl⟩
        · exact absurd heq hend
        · cases hvisible : e.isVisible with
          | true =>
            obtain ⟨level, hlevel, hmem⟩ := mem_of_mem_getLast? ha
            exact ⟨e, (mem_of_scan hscan he).1, hvisible, level, hlevel, a, hmem, rfl⟩
          | false => exact h s hscan hvararg e he hvisible a ha hne
      · rw [if_neg hvararg, offered_eq_ok_iff] at hdescribe
        obtain ⟨-, rfl⟩ := hdescribe
        obtain ⟨e, he, hhelp⟩ := List.mem_flatMap.1 (mem_of_mem_distinctBy hitem)
        obtain ⟨hvisible, level, hlevel, a, ha, rfl⟩ := exists_of_mem_helpOf hhelp hend
        have hmem : e ∈ elements := (mem_of_scan hscan (mem_of_mem_narrowTo he)).1
        exact ⟨e, hmem, hvisible, level, hlevel, a, ha, rfl⟩

-- ============================================================================
-- Completion
-- ============================================================================

theorem Candidates.mem_of_mem_settle {cs : Candidates} {index : Nat} {word : String}
    {grade : Grade} {e : Element} (h : e ∈ (cs.settle index word grade).2) : e ∈ cs := by
  unfold settle at h
  split at h
  · exact (List.mem_filter.1 h).1
  · exact h

theorem mem_of_scanTyped {index : Nat} {cs left : Candidates} {words : List String}
    (h : scanTyped index cs words = .ok left) {e : Element} (he : e ∈ left) : e ∈ cs := by
  induction words generalizing index cs with
  | nil =>
    cases h
    exact he
  | cons word rest ih =>
    rw [scanTyped] at h
    dsimp only at h
    split at h
    · cases h
    · rename_i agreed hsettle
      have hagreed : e ∈ (Candidates.settle (cs.narrow index word .any).2 index word
          (cs.narrow index word .any).1).2 := by
        rw [hsettle]
        exact ih h
      exact (Candidates.mem_narrow_iff.1 (Candidates.mem_of_mem_settle hagreed)).1

theorem mem_keywordsAt_iff_offers {cs : Candidates} {line : PartialLine} {k : String} :
    k ∈ keywordsAt cs line.index line.current ↔ ∃ e ∈ cs, e.Offers line k :=
  mem_keywordsAt_iff

/-- Nothing comes of completion but tokens of shown commands, and what they begin
    with. -/
def CompletionIsPublic (elements : List Element) (line : PartialLine) : Prop :=
  ∀ r, complete elements line = .ok r → r.IsPublic elements

/-- The keywords at the cursor of the commands that are left and not shown are tokens of
    commands that are, or are cut down to what such a token begins with. -/
def KeywordsArePublic (elements : List Element) (line : PartialLine) : Prop :=
  ∀ cs, scanTyped 0 elements line.words = .ok cs →
    ∀ e ∈ cs, e.isVisible = false → ∀ k, e.Offers line k →
      IsPublic elements k ∨
        ∃ start, complete elements line = .ok (.shared start) ∧
          ∃ text, IsPublic elements text ∧ Text.startsWith text start = true

theorem completionIsPublic_iff (elements : List Element) (line : PartialLine) :
    CompletionIsPublic elements line ↔ KeywordsArePublic elements line := by
  unfold CompletionIsPublic KeywordsArePublic
  rw [complete_eq]
  cases hscan : scanTyped 0 elements line.words with
  | error e => simp
  | ok cs =>
    dsimp only
    constructor
    · intro h cs' hcs e he hhidden k hk
      obtain rfl := Except.ok.inj hcs
      have hmem := mem_keywordsAt_iff_offers.2 ⟨e, he, hk⟩
      obtain ⟨r, hr, hcases⟩ :=
        Completion.exists_ofKeywords line.current (List.ne_nil_of_mem hmem)
      have hpublic := h r hr
      rcases hcases with ⟨keyword, hone, rfl⟩ | ⟨start, rfl, -⟩ | rfl
      · rw [hone, List.mem_singleton] at hmem
        subst hmem
        exact .inl hpublic
      · exact .inr ⟨start, hr, hpublic⟩
      · exact .inl (hpublic k hmem)
    · intro h r hr
      have hne : keywordsAt cs line.index line.current ≠ [] := by
        intro hnil
        rw [hnil] at hr
        cases hr
      have hkeyword : ∀ k ∈ keywordsAt cs line.index line.current,
          IsPublic elements k ∨
            ∃ start, r = .shared start ∧
              ∃ text, IsPublic elements text ∧ Text.startsWith text start = true := by
        intro k hk
        obtain ⟨e, he, hoffers⟩ := mem_keywordsAt_iff_offers.1 hk
        cases hvisible : e.isVisible with
        | true => exact .inl (.of_offers (mem_of_scanTyped hscan he) hvisible hoffers)
        | false =>
          refine (h cs rfl e he hvisible k hoffers).imp_right ?_
          rintro ⟨start, hstart, htext⟩
          exact ⟨start, Except.ok.inj (hr.symm.trans hstart), htext⟩
      obtain ⟨r', hr', hcases⟩ := Completion.exists_ofKeywords line.current hne
      obtain rfl := Except.ok.inj (hr.symm.trans hr')
      rcases hcases with ⟨keyword, hone, rfl⟩ | ⟨start, rfl, hstart⟩ | rfl
      · rw [hone] at hkeyword
        rcases hkeyword keyword List.mem_cons_self with hpublic | ⟨start, hshared, -⟩
        · exact hpublic
        · cases hshared
      · obtain ⟨k, hk⟩ := List.exists_mem_of_ne_nil _ hne
        rcases hkeyword k hk with hpublic | ⟨start', hshared, htext⟩
        · exact ⟨k, hpublic, hstart k hk⟩
        · cases hshared
          exact htext
      · intro k hk
        rcases hkeyword k hk with hpublic | ⟨start, hshared, -⟩
        · exact hpublic
        · cases hshared

-- ============================================================================
-- Both
-- ============================================================================

/-- Help keeps to the commands that are shown, exactly if those that are not have
    nothing of their own behind a free text; completion does, exactly if they have no
    keyword of their own at the cursor. -/
theorem shows_public_iff (elements : List Element) (line : PartialLine) :
    (HelpIsPublic elements line ↔ FreeTextIsPublic elements line) ∧
      (CompletionIsPublic elements line ↔ KeywordsArePublic elements line) :=
  ⟨helpIsPublic_iff elements line, completionIsPublic_iff elements line⟩

-- ============================================================================
-- A command that is not shown
-- ============================================================================

/-- The echo of a text, which is not shown. -/
def hiddenEcho : Element :=
  let echo := Element.ofTexts [["echo"], [".MESSAGE"]]
  { echo with spec.visibility := .hidden }

/-- The question mark behind its text tells of it, and so does the tabulator behind
    its first letters. -/
theorem not_forall_shows_public :
    (¬ ∀ (elements : List Element) (line : PartialLine), (∀ e ∈ elements, e.IsCompiled) →
        HelpIsPublic elements line) ∧
      ¬ ∀ (elements : List Element) (line : PartialLine), (∀ e ∈ elements, e.IsCompiled) →
        CompletionIsPublic elements line := by
  have hcompiled : ∀ e ∈ [hiddenEcho], e.IsCompiled := by
    intro e he
    rw [List.mem_singleton.1 he]
    exact Element.isCompiled_ofTexts [["echo"], [".MESSAGE"]]
  have hprivate : ¬ IsPublic [hiddenEcho] ".MESSAGE" ∧ ¬ IsPublic [hiddenEcho] "echo" := by
    decide +kernel
  have hdescribe : (describe [hiddenEcho] (.parse "echo hello ")).map (·.map (·.text)) =
      .ok [".MESSAGE", endOfCommandText] := by decide +kernel
  have hcomplete : complete [hiddenEcho] (.parse "ec") = .ok (.full "echo") := by
    decide +kernel
  constructor
  · intro h
    cases hitems : describe [hiddenEcho] (.parse "echo hello ") with
    | error e =>
      rw [hitems] at hdescribe
      cases hdescribe
    | ok items =>
      rw [hitems] at hdescribe
      have htexts : items.map (·.text) = [".MESSAGE", endOfCommandText] :=
        Except.ok.inj hdescribe
      obtain ⟨item, hitem, htext⟩ : ∃ item ∈ items, item.text = ".MESSAGE" := by
        rw [← List.mem_map, htexts]
        exact List.mem_cons_self
      have hpublic := h _ _ hcompiled items hitems item hitem
      rw [htext] at hpublic
      exact hprivate.1 (hpublic (by decide))
  · intro h
    exact hprivate.2 (h _ _ hcompiled _ hcomplete)

end RouterCli
