import RouterCli.Proofs.Matching.Offered
import RouterCli.Proofs.Pattern.Compiled

/-!
  RouterCli.Proofs.Matching.CursorKeywords

  What becomes of the word under the cursor, by the keywords that fit there. These
  are listed in the order of the commands and each once (`keywordsAt_eq`). Where two
  or more fit, the word grows to the longest text that all of them start with, if
  that is longer than the word.

  This longest text is found by looking at neighbours alone
  (`byteLength_commonStartOf`). The fewest bytes that two neighbours share cut the
  first keyword at the end of a character (`complete_iff`).
-/

namespace RouterCli

-- ============================================================================
-- The keywords at the cursor
-- ============================================================================

/-- The text of a keyword that does not stand in brackets. -/
def Token.keyword? : Token → Option String
  | .bare a => if a.shape = .keyword then some a.text else none
  | .optional .. => none

/-- The keywords of the commands at a position, in their order. -/
def keywordTexts (cs : Candidates) (index : Nat) : List String :=
  cs.flatMap fun e => ((e.level? index).getD []).filterMap (·.token.keyword?)

/-- The keywords at the cursor that start with the word there, each once. -/
def cursorKeywords (cs : Candidates) (index : Nat) (current : Option String) : List String :=
  ((keywordTexts cs index).filter fun text => current.all (Text.startsWith text ·)).eraseDups

theorem distinctBy_filter (p : String → Bool) (l : List String) :
    distinctBy id (l.filter p) = (distinctBy id l).filter p := by
  induction l with
  | nil => rfl
  | cons a rest ih =>
    by_cases ha : p a = true
    · rw [List.filter_cons_of_pos ha, distinctBy, distinctBy, ih, List.filter_cons_of_pos ha,
        List.filter_filter, List.filter_filter]
      congr 1
      exact List.filter_congr fun b _ => Bool.and_comm _ _
    · rw [List.filter_cons_of_neg ha, distinctBy, ih, List.filter_cons_of_neg ha,
        List.filter_filter]
      refine List.filter_congr fun b _ => ?_
      cases hb : p b with
      | false => rfl
      | true =>
        have hne : b ≠ a := fun heq => ha (heq ▸ hb)
        simp [hne]

/-- Keeping the first of each text is erasing its later copies. -/
theorem distinctBy_eq_eraseDups (l : List String) : distinctBy id l = l.eraseDups := by
  induction hn : l.length using Nat.strongRecOn generalizing l with
  | ind n ih =>
    subst hn
    cases l with
    | nil => rfl
    | cons a rest =>
      have hlt : (rest.filter fun b => !b == a).length < (a :: rest).length :=
        Nat.lt_succ_of_le (List.length_filter_le _ _)
      rw [List.eraseDups_cons, ← ih _ hlt _ rfl, distinctBy_filter, distinctBy]
      rfl

theorem Token.text_of_keyword? {t : Token} {text : String} (h : t.keyword? = some text) :
    t.text = text := by
  cases t with
  | optional _ _ => cases h
  | bare a =>
    simp only [keyword?, Option.ite_none_right_eq_some, Option.some.injEq] at h
    exact h.2

theorem completes_eq (current : Option String) (t : Token) :
    completes current t = t.keyword?.any fun text => current.all (Text.startsWith text ·) := by
  cases t with
  | optional _ _ => rfl
  | bare a =>
    cases hs : a.shape <;>
      simp [completes, Token.keyword?, Token.isOptional, Token.isVariable, Token.isVararg,
        Token.text, Atom.isVariable, Shape.isVariable, hs]

theorem filter_completes_eq (current : Option String) (level : Level) :
    (level.filter (completes current ·.token)).map (·.text) =
      (level.filterMap (·.token.keyword?)).filter fun text =>
        current.all (Text.startsWith text ·) := by
  induction level with
  | nil => rfl
  | cons a rest ih =>
    have hc := completes_eq current a.token
    rw [List.filter_cons, List.filterMap_cons, hc]
    cases hkeyword : a.token.keyword? with
    | none => exact ih
    | some text =>
      have htext : a.text = text := Token.text_of_keyword? hkeyword
      rw [Option.any_some, List.filter_cons, ← ih, ← htext]
      split_ifs <;> rfl

/-- Completion chooses among the keywords at the cursor. -/
theorem keywordsAt_eq (cs : Candidates) (index : Nat) (current : Option String) :
    keywordsAt cs index current = cursorKeywords cs index current := by
  rw [keywordsAt, distinctBy_eq_eraseDups, cursorKeywords, keywordTexts, List.filter_flatMap]
  congr 2
  funext e
  cases e.level? index with
  | none => rfl
  | some level => exact filter_completes_eq current level

-- ============================================================================
-- The longest common start
-- ============================================================================

/-- `start` is the longest text that all the texts start with. -/
def IsLongestStart (start : String) (texts : List String) : Prop :=
  (∀ s ∈ texts, start.toList <+: s.toList) ∧
    ∀ other : String, (∀ s ∈ texts, other.toList <+: s.toList) → other.length ≤ start.length

theorem isLongestStart_iff {start : String} {texts : List String} (hne : texts ≠ []) :
    IsLongestStart start texts ↔ start.toList = commonStartOf texts := by
  constructor
  · rintro ⟨hall, hlongest⟩
    have hprefix : start.toList <+: commonStartOf texts := (prefix_commonStartOf_iff hne).2 hall
    have hlength := hlongest (String.ofList (commonStartOf texts)) (by
      rw [String.toList_ofList]
      exact fun _ => commonStartOf_prefix_of_mem)
    rw [String.length_ofList, ← String.length_toList] at hlength
    exact hprefix.eq_of_length_le hlength
  · intro heq
    refine ⟨fun s hs => heq ▸ commonStartOf_prefix_of_mem hs, fun other hother => ?_⟩
    have hprefix := (prefix_commonStartOf_iff hne).2 hother
    rw [← heq] at hprefix
    rw [← String.length_toList, ← String.length_toList]
    exact hprefix.length_le

-- ============================================================================
-- Completion
-- ============================================================================

namespace Completion

variable {current : Option String} {keywords : List String}

theorem ofKeywords_eq_full_iff {k : String} :
    ofKeywords current keywords = .ok (.full k) ↔ keywords = [k] := by
  constructor
  · exact eq_singleton_of_full
  · rintro rfl
    rfl

/-- Two or more keywords are told by what they share, if that is longer than the
    word, and else are listed. -/
theorem ofKeywords_of_two_le (h : 2 ≤ keywords.length) :
    ofKeywords current keywords =
      if current.any (·.length < (commonStartOf keywords).length) then
        .ok (.shared (String.ofList (commonStartOf keywords)))
      else .ok (.choices keywords) := by
  match keywords, h with
  | first :: second :: rest, _ => rfl

theorem two_le_of_shared {start : String} (h : ofKeywords current keywords = .ok (.shared start)) :
    2 ≤ keywords.length := by
  match keywords, h with
  | _ :: _ :: _, _ => exact Nat.le_add_left _ _

theorem two_le_of_choices {l : List String} (h : ofKeywords current keywords = .ok (.choices l)) :
    2 ≤ keywords.length := by
  match keywords, h with
  | _ :: _ :: _, _ => exact Nat.le_add_left _ _

theorem ofKeywords_eq_shared_iff {start : String} :
    ofKeywords current keywords = .ok (.shared start) ↔
      2 ≤ keywords.length ∧ IsLongestStart start keywords ∧
        ∃ word, current = some word ∧ word.length < start.length := by
  constructor
  · intro h
    have htwo := two_le_of_shared h
    have hne : keywords ≠ [] := List.ne_nil_of_length_pos (by omega)
    rw [ofKeywords_of_two_le htwo] at h
    split_ifs at h with hgrows <;> cases h
    obtain ⟨word, rfl, hlt⟩ := (Option.any_eq_true _ _).1 hgrows
    rw [isLongestStart_iff hne, String.toList_ofList, String.length_ofList]
    exact ⟨htwo, rfl, word, rfl, of_decide_eq_true hlt⟩
  · rintro ⟨htwo, hlongest, word, rfl, hlt⟩
    have hne : keywords ≠ [] := List.ne_nil_of_length_pos (by omega)
    rw [isLongestStart_iff hne] at hlongest
    rw [ofKeywords_of_two_le htwo, ← hlongest, String.length_toList, String.ofList_toList]
    simp [hlt]

theorem ofKeywords_eq_choices_iff {l : List String} :
    ofKeywords current keywords = .ok (.choices l) ↔
      l = keywords ∧ 2 ≤ keywords.length ∧
        ∀ word start, current = some word → IsLongestStart start keywords →
          start.length ≤ word.length := by
  constructor
  · intro h
    have htwo := two_le_of_choices h
    have hne : keywords ≠ [] := List.ne_nil_of_length_pos (by omega)
    rw [ofKeywords_of_two_le htwo] at h
    split_ifs at h with hgrows <;> cases h
    refine ⟨rfl, htwo, ?_⟩
    rintro word start rfl hlongest
    rw [isLongestStart_iff hne] at hlongest
    rw [← hlongest, String.length_toList, Option.any_some, decide_eq_true_eq] at hgrows
    omega
  · rintro ⟨rfl, htwo, hshort⟩
    have hne : l ≠ [] := List.ne_nil_of_length_pos (by omega)
    rw [ofKeywords_of_two_le htwo, if_neg]
    intro hgrows
    obtain ⟨word, hword, hlt⟩ := (Option.any_eq_true _ _).1 hgrows
    have hlongest : IsLongestStart (String.ofList (commonStartOf l)) l :=
      (isLongestStart_iff hne).2 String.toList_ofList
    have hle := hshort word _ hword hlongest
    rw [String.length_ofList] at hle
    rw [decide_eq_true_eq] at hlt
    omega

theorem ofKeywords_eq_error_iff {e : CommandError} :
    ofKeywords current keywords = .error e ↔
      keywords = [] ∧ e = if current.isNone then .nothingToDo else .noMatch := by
  rcases keywords with _ | ⟨first, _ | ⟨second, rest⟩⟩
  · rw [ofKeywords, Except.error.injEq, eq_comm]
    exact (and_iff_right rfl).symm
  · simp [ofKeywords]
  · rw [ofKeywords_of_two_le (Nat.le_add_left _ _)]
    split_ifs <;> simp

end Completion

/-- What completion answers, by the keywords at the cursor of the commands that the
    finished words leave. One keyword takes the word's place. Two or more give what
    all of them start with where that is longer than the word, and are listed
    elsewhere. What they all start with is the first of them cut behind as many
    bytes as the two neighbours share that share the fewest. -/
theorem complete_iff {elements : List Element} {line : PartialLine} {cs : Candidates}
    (h : scanTyped 0 elements line.words = .ok cs) :
    let keywords := cursorKeywords cs line.index line.current
    keywords.Nodup ∧
      (∀ k, complete elements line = .ok (.full k) ↔ keywords = [k]) ∧
      (∀ start, complete elements line = .ok (.shared start) ↔
        2 ≤ keywords.length ∧ IsLongestStart start keywords ∧
          ∃ word, line.current = some word ∧ word.length < start.length) ∧
      (∀ start, complete elements line = .ok (.shared start) →
        ∃ first rest, keywords.head? = some first ∧ first = start ++ rest ∧
          start.utf8ByteSize = neighbourBytes keywords) ∧
      (∀ l, complete elements line = .ok (.choices l) ↔
        l = keywords ∧ 2 ≤ keywords.length ∧
          ∀ word start, line.current = some word → IsLongestStart start keywords →
            start.length ≤ word.length) ∧
      ∀ e, complete elements line = .error e ↔
        keywords = [] ∧ e = if line.current.isNone then .nothingToDo else .noMatch := by
  intro keywords
  have hcomplete : complete elements line = Completion.ofKeywords line.current keywords := by
    rw [complete_eq, h]
    dsimp only
    rw [keywordsAt_eq]
  have hnodup : keywords.Nodup := by
    have hkeywords := nodup_keywordsAt cs line.index line.current
    rwa [keywordsAt_eq] at hkeywords
  rw [hcomplete]
  refine ⟨hnodup, fun k => Completion.ofKeywords_eq_full_iff,
    fun start => Completion.ofKeywords_eq_shared_iff, ?_,
    fun l => Completion.ofKeywords_eq_choices_iff,
    fun e => Completion.ofKeywords_eq_error_iff⟩
  intro start hshared
  obtain ⟨htwo, hlongest, -⟩ := Completion.ofKeywords_eq_shared_iff.1 hshared
  match keywords, htwo with
  | first :: second :: others, _ =>
    obtain ⟨rest, hrest⟩ := hlongest.1 first List.mem_cons_self
    have hstart := (isLongestStart_iff (List.cons_ne_nil _ _)).1 hlongest
    refine ⟨first, String.ofList rest, rfl, ?_, ?_⟩
    · apply String.toList_inj.1
      rw [String.toList_append, String.toList_ofList, hrest]
    · rw [← byteLength_commonStartOf, ← hstart, Text.byteLength_toList]

/-- Two keywords that part at two characters of which the first bytes are the
    same, a free word, and a keyword in brackets. -/
def streetCommands : List Element :=
  [.ofTexts [["zeige"], ["straße", "straàe", "WORD"]], .ofTexts [["zeige"], ["[strand]"]],
    .ofTexts [["zeige"], ["strang"]], .ofTexts [["lösche"], ["stock"]]]

/-- The word `st` of `zeige st` grows by two characters, to the fourth byte of
    `straße`. Its first two keywords share five bytes, but only four of these are whole
    characters. -/
theorem complete_iff_street :
    let line : PartialLine := ⟨["ze"], some "st"⟩
    let kept := streetCommands.take 3
    scanTyped 0 streetCommands line.words = .ok kept ∧
      cursorKeywords kept 1 (some "st") = ["straße", "straàe", "strang"] ∧
      neighbourBytes ["straße", "straàe", "strang"] = 4 ∧
      complete streetCommands line = .ok (.shared "stra") := by
  intro line kept
  have hscan : scanTyped 0 streetCommands line.words = .ok kept := rfl
  have hkeywords : cursorKeywords kept 1 (some "st") = ["straße", "straàe", "strang"] := by
    decide +kernel
  have hlongest : IsLongestStart "stra" ["straße", "straàe", "strang"] :=
    (isLongestStart_iff (by decide)).2 (by decide +kernel)
  obtain ⟨-, -, hshared, -⟩ := complete_iff hscan
  refine ⟨hscan, hkeywords, by decide +kernel, (hshared "stra").2 ?_⟩
  rw [show line.index = 1 from rfl, show line.current = some "st" from rfl, hkeywords]
  exact ⟨by decide, hlongest, "st", rfl, by decide +kernel⟩

end RouterCli
