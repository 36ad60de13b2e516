import RouterCli.Proofs.Matching.Offered
import RouterCli.Proofs.Matching.Threshold

/-!
  RouterCli.Proofs.Matching.Completed

  A line before and after its last word is completed. Completion goes through the
  finished words as resolving does, except that it puts up with a word that only
  begins an address (`scan_of_scanTyped`). A word that begins or is one keyword
  leaves the commands that have the keyword (`advance_of_exact`,
  `advance_of_begun`), and so does the keyword itself; hence the line means the
  same command with either (`map_element_resolve_of_complete`). Completion passes
  over keywords in brackets and resolving does not: a word that is a whole one of
  these may mean another command than its completion (`not_forall_resolve_eq`).
-/

namespace RouterCli

-- ============================================================================
-- Keywords of a command
-- ============================================================================

/-- The command has this keyword at the position, bare or in brackets. -/
def Element.Names (e : Element) (index : Nat) (keyword : String) : Prop :=
  ∃ a ∈ e.atomsAt index, a.shape = .keyword ∧ a.text = keyword

instance (e : Element) (index : Nat) (keyword : String) : Decidable (e.Names index keyword) :=
  inferInstanceAs (Decidable (∃ a ∈ e.atomsAt index, a.shape = .keyword ∧ a.text = keyword))

theorem Element.exact_le_grade_iff {e : Element} {index : Nat} {word : String} {min : Grade} :
    .exact ≤ e.grade index word min ↔ e.Names index word := by
  constructor
  · exact exists_keyword_of_exact_le
  · rintro ⟨a, ha, hs, htext⟩
    exact le_grade_of_takes ha (.keyword hs htext)

/-- A word that begins a keyword of a command and is none is the start of a keyword
    there. -/
theorem Element.exists_takes_of_begun {e : Element} {index : Nat} {word keyword : String}
    (hstart : Text.startsWith keyword word = true) (hk : e.Names index keyword)
    (hword : ¬ e.Names index word) :
    ∃ a ∈ e.atomsAt index, a.Takes word .any .partly ∧ a.text = keyword := by
  obtain ⟨a, ha, hs, rfl⟩ := hk
  have hne : a.text ≠ word := fun heq => hword ⟨a, ha, hs, heq⟩
  exact ⟨a, ha, .begun hs hstart hne (by decide), rfl⟩

/-- What is offered in place of a word is a keyword that the word begins. -/
theorem exists_names_of_mem_keywordsAt {cs : Candidates} {index : Nat} {word k : String}
    (h : k ∈ keywordsAt cs index (some word)) :
    Text.startsWith k word = true ∧ ∃ e ∈ cs, e.Names index k := by
  obtain ⟨e, he, level, hlevel, alternative, hmem, hcompletes, htext⟩ := mem_keywordsAt_iff.1 h
  obtain ⟨a, htoken, hs, hstart⟩ := completes_iff.1 hcompletes
  have hk : a.text = k := by
    rw [← htext, Alternative.text, htoken]
    rfl
  rw [hk] at hstart
  refine ⟨hstart, e, he, a, ?_, hs, hk⟩
  rw [Element.atomsAt, hlevel]
  exact List.mem_filterMap.2 ⟨alternative, hmem, by rw [htoken]; rfl⟩

-- ============================================================================
-- One word
-- ============================================================================

namespace Candidates

variable {cs : Candidates} {index : Nat} {word k : String}

/-- The atoms that candidates in agreement take a word as all have one text. -/
theorem text_eq_of_agreement {grade : Grade} (hg : grade = .partly ∨ grade = .range)
    (h : cs.agreement index word grade = .unique) {e e' : Element} (he : e ∈ cs) (he' : e' ∈ cs)
    {a a' : Atom} (ha : a ∈ e.atomsAt index) (ha' : a' ∈ e'.atomsAt index)
    (hhit : hits grade word a = true) (hhit' : hits grade word a' = true) : a.text = a'.text := by
  have halike : allAlike (((cs.flatMap (·.atomsAt index)).filter (hits grade word)).map
      (·.text)) = true := by
    unfold agreement at h
    rcases hg with rfl | rfl <;> dsimp only at h <;> split_ifs at h with halike <;> exact halike
  have hmem : ∀ {e : Element} {a : Atom}, e ∈ cs → a ∈ e.atomsAt index →
      hits grade word a = true →
      a.text ∈ ((cs.flatMap (·.atomsAt index)).filter (hits grade word)).map (·.text) :=
    fun he ha hhit => List.mem_map_of_mem
      (List.mem_filter.2 ⟨List.mem_flatMap.2 ⟨_, he, ha⟩, hhit⟩)
  exact allAlike_iff.1 halike _ (hmem he ha hhit) _ (hmem he' ha' hhit')

/-- A typed word that the candidates agree on leaves those of its grade. -/
theorem advance_any_of_best {g : Grade} (hbest : cs.best index word .any = g)
    (hn : g ≠ .noMatch) (hv : g ≠ .vararg)
    (hagree : agreement (cs.narrow index word .any).2 index word g = .unique) :
    cs.advance .any index word =
      some (cs.filter fun e => decide (g ≤ e.grade index word .any)) := by
  have hg : OnePass.strongest cs index word = g := by rw [← best_eq_strongest, hbest]
  rw [advance_eq_some_iff, hbest]
  refine ⟨hv, hagree, ?_⟩
  rw [narrow_any, hg, filter_hits_of_owns cs hv]
  refine List.filter_congr fun e he => ?_
  have howns := owns_iff_le_grade he (by rw [hg]; exact hn)
  rw [hg] at howns
  rw [Bool.eq_iff_iff, decide_eq_true_iff, howns]

/-- A word that is a keyword of some candidate leaves those that have it. -/
theorem advance_of_exact (h : ∃ e ∈ cs, e.Names index word) :
    cs.advance .any index word = some (cs.filter fun e => decide (e.Names index word)) := by
  obtain ⟨e, he, hnames⟩ := h
  have hbest : cs.best index word .any = .exact :=
    Grade.eq_exact_of_le
      (Grade.le_trans (Element.exact_le_grade_iff.2 hnames) (grade_le_best he index word .any))
  rw [advance_any_of_best hbest (by decide) (by decide) rfl]
  simp only [Element.exact_le_grade_iff]

/-- A word that begins a keyword of some candidate and is a keyword of none is the
    start of a keyword. -/
theorem best_eq_partly (hge : .partly ≤ cs.best index word .any)
    (hword : ∀ e ∈ cs, ¬ e.Names index word) : cs.best index word .any = .partly := by
  have hn : cs.best index word .any ≠ .noMatch := by
    intro hnone
    rw [hnone] at hge
    exact absurd hge (by decide)
  have hne : cs.best index word .any ≠ .exact := by
    intro hexact
    obtain ⟨e, he, hgrade⟩ := exists_best hn
    rw [hexact] at hgrade
    have hle : .exact ≤ e.grade index word .any := by
      rw [hgrade]
      exact Grade.le_refl _
    exact hword e he (Element.exact_le_grade_iff.1 hle)
  generalize cs.best index word .any = g at hge hne
  cases g with
  | partly => rfl
  | exact => exact absurd rfl hne
  | _ => exact absurd hge (by decide)

/-- A word that begins a keyword of some candidate and is a keyword of none leaves
    those that have the keyword, or the candidates disagree on it. -/
theorem advance_of_begun (hstart : Text.startsWith k word = true) (hk : ∃ e ∈ cs, e.Names index k)
    (hword : ∀ e ∈ cs, ¬ e.Names index word) :
    cs.advance .any index word = some (cs.filter fun e => decide (e.Names index k)) ∨
      cs.best index word .any = .partly ∧
        agreement (cs.narrow index word .any).2 index word .partly = .ambiguous := by
  have hle : ∀ e ∈ cs, e.Names index k → .partly ≤ e.grade index word .any := by
    intro e he hnames
    obtain ⟨a, ha, htakes, -⟩ := Element.exists_takes_of_begun hstart hnames (hword e he)
    exact Element.le_grade_of_takes ha htakes
  obtain ⟨owner, howner, hnames⟩ := hk
  have hbest := best_eq_partly
    (Grade.le_trans (hle owner howner hnames) (grade_le_best howner index word .any)) hword
  have hnarrow : ∀ e ∈ cs, .partly ≤ e.grade index word .any →
      e ∈ (cs.narrow index word .any).2 := by
    intro e he hpartly
    rw [mem_narrow_iff, hbest]
    refine ⟨he, ?_, hpartly⟩
    intro hnone
    rw [hnone] at hpartly
    exact absurd hpartly (by decide)
  have hhits : ∀ {a : Atom}, a.Takes word .any .partly → hits .partly word a = true :=
    fun h => hits_of_classify h.classify_eq (by decide) (by decide)
  cases hagree : agreement (cs.narrow index word .any).2 index word .partly with
  | ambiguous => exact .inr ⟨hbest, rfl⟩
  | incomplete =>
    unfold agreement at hagree
    dsimp only at hagree
    split_ifs at hagree
  | unique =>
    refine .inl ?_
    rw [advance_any_of_best hbest (by decide) (by decide) hagree]
    refine congrArg some (List.filter_congr fun e he => ?_)
    rw [decide_eq_decide]
    refine ⟨fun hpartly => ?_, hle e he⟩
    -- Whatever keyword the word begins here has the text of the owner's.
    have hgrade : e.grade index word .any = .partly :=
      Grade.le_antisymm (hbest ▸ grade_le_best he index word .any) hpartly
    obtain ⟨a, ha, htakes⟩ := Element.exists_takes_of_grade hgrade (by decide)
    obtain ⟨a', ha', htakes', htext⟩ :=
      Element.exists_takes_of_begun hstart hnames (hword owner howner)
    have hsame := text_eq_of_agreement (.inl rfl) hagree (hnarrow e he hpartly)
      (hnarrow owner howner (hle owner howner hnames)) ha ha' (hhits htakes) (hhits htakes')
    exact ⟨a, ha, (Atom.keyword_of_takes_partly htakes).1, hsame.trans htext⟩

end Candidates

/-- Where the candidates read a begun keyword as several, the line is ambiguous. -/
theorem scan_of_disagreement {cs : Candidates} {index : Nat} {word : String}
    (hbest : cs.best index word .any = .partly)
    (hagree : Candidates.agreement (cs.narrow index word .any).2 index word .partly = .ambiguous)
    (rest : List String) : scan .any index cs (word :: rest) = .error .ambiguous := by
  rw [scan]
  dsimp only
  rw [Candidates.fst_narrow, hbest, if_neg (by decide), Candidates.settle, hagree]

-- ============================================================================
-- The finished words
-- ============================================================================

theorem scanTyped_nil (index : Nat) (words : List String) : scanTyped index [] words = .ok [] := by
  induction words generalizing index with
  | nil => rfl
  | cons word rest ih => exact ih (index + 1)

/-- What completion makes of the finished words, if it has candidates left:
    resolving is left with the same, or has refused the start of an address. -/
theorem scan_of_scanTyped {index : Nat} {cs left : Candidates} {words : List String}
    (h : scanTyped index cs words = .ok left) (hne : left ≠ []) :
    scan .any index cs words = .error .noMatch ∨
      scan .any index cs words = .ok ⟨left, index + words.length, false⟩ := by
  induction words generalizing index cs with
  | nil =>
    cases h
    exact .inr rfl
  | cons word rest ih =>
    rw [scanTyped] at h
    rw [scan]
    dsimp only at h ⊢
    generalize cs.narrow index word .any = narrowed at h ⊢
    obtain ⟨grade, kept⟩ := narrowed
    dsimp only at h ⊢
    by_cases hvararg : grade = .vararg
    · -- Nothing is hit by free text, so that no candidate would be left.
      have hsettle : kept.settle index word grade = (.unique, []) := by
        rw [hvararg, Candidates.settle]
        simp [Candidates.agreement, Candidates.hits]
      rw [hsettle] at h
      dsimp only at h
      rw [scanTyped_nil] at h
      exact absurd (Except.ok.inj h).symm hne
    · rw [if_neg hvararg]
      generalize kept.settle index word grade = settled at h ⊢
      obtain ⟨agree, agreed⟩ := settled
      cases agree with
      | ambiguous => cases h
      | incomplete => exact .inl rfl
      | unique =>
        rw [List.length_cons, show index + (rest.length + 1) = index + 1 + rest.length by omega]
        exact ih h

/-- What a reading has refused it refuses whatever follows. -/
theorem scan_append_of_error {min : Grade} {index : Nat} {cs : Candidates} {words : List String}
    {e : CommandError} (h : scan min index cs words = .error e) (rest : List String) :
    scan min index cs (words ++ rest) = .error e := by
  induction words generalizing index cs with
  | nil => cases h
  | cons word words ih =>
    rw [scan] at h
    rw [List.cons_append, scan]
    dsimp only at h ⊢
    split_ifs at h ⊢
    generalize (cs.narrow index word min).2.settle index word (cs.narrow index word min).1 =
      settled at h ⊢
    obtain ⟨agree, agreed⟩ := settled
    cases agree with
    | ambiguous | incomplete => exact h
    | unique => exact ih h

-- ============================================================================
-- The whole line
-- ============================================================================

/-- How many words are arguments depends on how many words there are. -/
theorem length_arguments_congr (levels : List Level) {words words' : List String}
    (h : words.length = words'.length) :
    (arguments levels words).length = (arguments levels words').length := by
  induction words generalizing levels words' with
  | nil =>
    rw [List.length_nil] at h
    rw [List.eq_nil_of_length_eq_zero h.symm]
  | cons word rest ih =>
    cases words' with
    | nil => cases h
    | cons word' rest' =>
      have hrest : rest.length = rest'.length := Nat.succ.inj h
      rcases levels with _ | ⟨_ | ⟨a, _ | ⟨b, more⟩⟩, levels⟩
      · exact h
      · simp only [arguments, List.length_cons, ih levels hrest]
      · simp only [arguments]
        split_ifs
        · exact h
        · simp only [List.length_cons, ih levels hrest]
        · exact ih levels hrest
      · simp only [arguments, List.length_cons, ih levels hrest]

/-- The command that words mean is a matter of what the reading leaves and of how
    many words there are. -/
theorem map_element_resolve_congr {elements : List Element} {words words' : List String}
    {strict : Bool} (hlength : words.length = words'.length)
    (hscan : scan (threshold strict) 0 elements words = scan (threshold strict) 0 elements words')
    (most : Nat) :
    (resolve elements words strict most).map (·.element) =
      (resolve elements words' strict most).map (·.element) := by
  have hempty : words.isEmpty = words'.isEmpty := by
    rw [Bool.eq_iff_iff, List.isEmpty_iff_length_eq_zero, List.isEmpty_iff_length_eq_zero, hlength]
  rw [resolve_eq, resolve_eq, hscan, hempty]
  cases scan (threshold strict) 0 elements words' with
  | error e => rfl
  | ok s =>
    dsimp only
    cases s.select with
    | error e => rfl
    | ok e =>
      dsimp only
      rw [length_arguments_congr e.levels hlength]
      split_ifs <;> rfl

/-- A single keyword is offered by the commands that the finished words leave. -/
theorem exists_scanTyped_of_complete {elements : List Element} {ws : List String} {w k : String}
    (h : complete elements ⟨ws, some w⟩ = .ok (.full k)) :
    ∃ cs, scanTyped 0 elements ws = .ok cs ∧ k ∈ keywordsAt cs ws.length (some w) := by
  rw [complete_eq] at h
  cases htyped : scanTyped 0 elements ws with
  | error e =>
    rw [htyped] at h
    cases h
  | ok cs =>
    rw [htyped] at h
    refine ⟨cs, rfl, ?_⟩
    have hone : keywordsAt cs ws.length (some w) = [k] := Completion.eq_singleton_of_full h
    rw [hone]
    exact List.mem_singleton_self _

/-- A line with its last word completed means the command it meant before, or is
    refused as it was before. A word that is a whole keyword of some command left,
    which is then one in brackets, has to be so for the same commands as its
    completion. -/
theorem map_element_resolve_of_complete {elements : List Element} {ws : List String}
    {w k : String} {most : Nat} (hcomplete : complete elements ⟨ws, some w⟩ = .ok (.full k))
    (hread : resolve elements (ws ++ [w]) false most ≠ .error .ambiguous)
    (hkeyword : ∀ s, scan .any 0 elements ws = .ok s →
      (∃ e ∈ s.survivors, e.Names ws.length w) →
      ∀ e ∈ s.survivors, (e.Names ws.length w ↔ e.Names ws.length k)) :
    (resolve elements (ws ++ [k]) false most).map (·.element) =
      (resolve elements (ws ++ [w]) false most).map (·.element) := by
  apply map_element_resolve_congr (by simp)
  obtain ⟨cs, htyped, hoffered⟩ := exists_scanTyped_of_complete hcomplete
  obtain ⟨hstart, hk⟩ := exists_names_of_mem_keywordsAt hoffered
  have hne : cs ≠ [] := by
    obtain ⟨e, he, -⟩ := hk
    exact List.ne_nil_of_mem he
  rw [show threshold false = .any from rfl]
  rcases scan_of_scanTyped htyped hne with hrefused | hscan
  · rw [scan_append_of_error hrefused, scan_append_of_error hrefused]
  · rw [Nat.zero_add] at hscan
    rw [scan_append_of_scan hscan rfl, scan_append_of_scan hscan rfl]
    dsimp only
    rw [scan_of_advance (Candidates.advance_of_exact hk)]
    by_cases hword : ∃ e ∈ cs, e.Names ws.length w
    · have hsame := hkeyword _ hscan hword
      rw [scan_of_advance (Candidates.advance_of_exact hword),
        List.filter_congr fun e he => decide_eq_decide.2 (hsame e he)]
    · have hnone : ∀ e ∈ cs, ¬ e.Names ws.length w := fun e he hw => hword ⟨e, he, hw⟩
      rcases Candidates.advance_of_begun hstart hk hnone with hadvance | ⟨hbest, hagree⟩
      · rw [scan_of_advance hadvance]
      · refine absurd ?_ hread
        rw [resolve_eq, show threshold false = .any from rfl, scan_append_of_scan hscan rfl]
        dsimp only
        rw [scan_of_disagreement hbest hagree]

/-- A command with a keyword of which it takes a shorter form, too. -/
def versionCommands : List Element :=
  [.ofTexts [["show"], ["version", "[ver]"], ["[detail]"]], .ofTexts [["show"], ["bts"]]]

/-- The word `ver` is a keyword of the command that its completion `version`
    belongs to. -/
theorem map_element_resolve_of_complete_version :
    complete versionCommands ⟨["show"], some "ver"⟩ = .ok (.full "version") ∧
      resolve versionCommands ["show", "ver"] false 256 ≠ .error .ambiguous ∧
      (∃ e ∈ versionCommands, e.Names 1 "ver") ∧
      (∀ e ∈ versionCommands, (e.Names 1 "ver" ↔ e.Names 1 "version")) ∧
      (resolve versionCommands ["show", "version"] false 256).map (·.element) =
        (resolve versionCommands ["show", "ver"] false 256).map (·.element) := by
  have hcomplete : complete versionCommands ⟨["show"], some "ver"⟩ = .ok (.full "version") := rfl
  have hread : resolve versionCommands ["show", "ver"] false 256 ≠ .error .ambiguous := by
    decide +kernel
  have hsame : ∀ e ∈ versionCommands, (e.Names 1 "ver" ↔ e.Names 1 "version") := by
    decide +kernel
  refine ⟨hcomplete, hread, by decide +kernel, hsame, ?_⟩
  refine map_element_resolve_of_complete hcomplete hread ?_
  intro s hscan _
  have hs : scan .any 0 versionCommands ["show"] = .ok ⟨versionCommands, 1, false⟩ := rfl
  obtain rfl : s = ⟨versionCommands, 1, false⟩ := Except.ok.inj (hscan.symm.trans hs)
  exact hsame

/-- The tabulator takes `foo ba` to another command where `ba` is a keyword in
    brackets. -/
theorem not_forall_resolve_eq :
    (∀ e ∈ [Element.ofTexts [["foo"], ["bar"]], .ofTexts [["foo"], ["[ba]"]]], e.IsCompiled) ∧
      ¬ ∀ (elements : List Element) (ws : List String) (w k : String) (most : Nat),
        (∀ e ∈ elements, e.IsCompiled) → w ≠ "" →
        complete elements ⟨ws, some w⟩ = .ok (.full k) →
        resolve elements (ws ++ [w]) false most ≠ .error .ambiguous →
        (resolve elements (ws ++ [k]) false most).map (·.element) =
          (resolve elements (ws ++ [w]) false most).map (·.element) := by
  have hcompiled : ∀ e ∈ [Element.ofTexts [["foo"], ["bar"]], .ofTexts [["foo"], ["[ba]"]]],
      e.IsCompiled := by
    intro e he
    rw [List.mem_cons, List.mem_singleton] at he
    rcases he with rfl | rfl <;> exact Element.isCompiled_ofTexts _
  refine ⟨hcompiled, fun hall => ?_⟩
  have hsame := hall _ ["foo"] "ba" "bar" 256 hcompiled (by decide) rfl (by decide +kernel)
  exact absurd hsame (by decide +kernel)

end RouterCli
