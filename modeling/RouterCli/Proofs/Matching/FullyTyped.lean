import RouterCli.Proofs.Matching.Threshold

/-!
  RouterCli.Proofs.Matching.FullyTyped

  The strict threshold accepts fully typed lines only (`isFullyTyped_of_resolve`).
  The command that a line comes to has, for every word up to the end or up to
  the free text, an alternative that takes the word in full. Narrowing asks for
  that in its first pass; a free text passes too, but where it is not the best
  reading of the word, the second pass asks for a keyword in full
  (`exists_takesInFull_of_advance`).
-/

namespace RouterCli

-- ============================================================================
-- Words taken in full
-- ============================================================================

/-- The word is a numeral of the range's kind, and its value within the bounds. -/
def Range.Contains (range : Range) (word : String) : Prop :=
  match range with
  | .unsigned min max =>
    ∃ n, Text.readUnsigned (Text.maxUnsigned 64) word.toList = some n ∧ min ≤ n ∧ n ≤ max
  | .signed min max =>
    ∃ n, Text.readSigned (Text.maxSigned 64) word.toList = some n ∧ min ≤ n ∧ n ≤ max

theorem Range.accepts_iff (range : Range) (word : String) :
    range.accepts word = true ↔ range.Contains word := by
  cases range <;> simp [accepts, Contains, Option.any_eq_true]

namespace Atom

/-- The atom takes the whole word, and not as the start of something longer:
    the keyword itself, a number of the range, a finished address, or any word
    at a free variable. -/
def TakesInFull (a : Atom) (word : String) : Prop :=
  match a.shape with
  | .keyword => a.text = word
  | .range bounds => ∃ range ∈ bounds, range.Contains word
  | .ipv4 => Ipv4.walk word = .exact
  | .ipv4Prefix => Ipv4.walkPrefix word = .exact
  | .ipv6 => Ipv6.walk word = .exact
  | .ipv6Prefix => Ipv6.walkPrefix word = .exact
  | .variable => True
  | .vararg => False

/-- Under the strict threshold a word is taken in full, or as free text. -/
theorem Takes.inFull {a : Atom} {word : String} {g : Grade} (h : a.Takes word .exact g) :
    a.TakesInFull word ∨ a.shape = .vararg := by
  unfold TakesInFull
  cases h with
  | keyword hs h => exact .inl (by rw [hs]; exact h)
  | begun _ _ _ hmin => exact absurd hmin (by decide)
  | range hs h => exact .inl (by rw [hs]; exact ⟨_, rfl, (Range.accepts_iff _ _).1 h⟩)
  | ipv4 hs h | ipv4Prefix hs h | ipv6 hs h | ipv6Prefix hs h =>
    exact .inl (by rw [hs]; exact Grade.eq_exact_of_le h)
  | «variable» hs => exact .inl (by rw [hs]; trivial)
  | vararg hs => exact .inr hs

end Atom

/-- Every word is typed in full for the command: up to the last word, where the
    command may end there, or up to a free text. -/
def Element.IsFullyTyped (e : Element) (words : List String) : Prop :=
  ∃ k, (∀ i < k, ∀ word ∈ words[i]?, ∃ a ∈ e.atomsAt i, a.TakesInFull word) ∧
    (k = words.length ∧ e.mandatory ≤ k ∧ k ≤ e.levels.length ∨
      k < words.length ∧ ∃ a ∈ e.atomsAt k, a.shape = .vararg)

-- ============================================================================
-- One word
-- ============================================================================

namespace Candidates

/-- What goes on behind a word has taken it in full. -/
theorem exists_takesInFull_of_advance {index : Nat} {cs kept : Candidates} {word : String}
    (h : cs.advance .exact index word = some kept) {e : Element} (he : e ∈ kept) :
    ∃ a ∈ e.atomsAt index, a.TakesInFull word := by
  obtain ⟨hvararg, -, rfl⟩ := advance_eq_some_iff.1 h
  obtain ⟨hmem, hfits, hbest⟩ := mem_narrow_iff.1 (List.mem_filter.1 he).1
  obtain ⟨a, ha, htakes⟩ := Element.exists_takes_of_grade rfl hfits
  rcases htakes.inFull with hfull | hshape
  · exact ⟨a, ha, hfull⟩
  · -- Something fits better than this free text, which only a whole keyword does.
    have hle : Grade.vararg ≤ cs.best index word .exact :=
      Grade.le_trans (Element.le_grade_of_takes ha (.vararg hshape))
        (grade_le_best hmem index word .exact)
    have hpartly := cs.best_exact_ne_partly index word
    have hexact : cs.best index word .exact = .exact := by
      generalize cs.best index word .exact = g at hle hvararg hpartly
      cases g with
      | exact => rfl
      | vararg => exact absurd rfl hvararg
      | partly => exact absurd rfl hpartly
      | _ => exact absurd hle (by decide)
    rw [hexact] at hbest
    obtain ⟨b, hb, hkey, htext⟩ := Element.exists_keyword_of_exact_le hbest
    refine ⟨b, hb, ?_⟩
    rw [Atom.TakesInFull, hkey]
    exact htext

end Candidates

-- ============================================================================
-- All words
-- ============================================================================

/-- The survivors of a strict reading have taken in full every word before the
    place where it stopped. -/
theorem takesInFull_of_scan {index : Nat} {cs : Candidates} {words : List String} {s : Scan}
    (h : scan .exact index cs words = .ok s) {e : Element} (he : e ∈ s.survivors) {i : Nat}
    (hi : index + i < s.index) {word : String} (hword : words[i]? = some word) :
    ∃ a ∈ e.atomsAt (index + i), a.TakesInFull word := by
  obtain ⟨_, _, hkept, -, hsurvivors⟩ := exists_advance_of_scan h hword hi
  exact Candidates.exists_takesInFull_of_advance hkept (hsurvivors he)

/-- Where a free text stopped the reading and one command is left, the free text
    is that command's. -/
theorem exists_vararg_of_scan {min : Grade} {index : Nat} {cs : Candidates}
    {words : List String} {s : Scan} (h : scan min index cs words = .ok s)
    (hv : s.atVararg = true) {e : Element} (honly : s.survivors = [e]) :
    s.index < index + words.length ∧ ∃ a ∈ e.atomsAt s.index, a.shape = .vararg := by
  induction words generalizing index cs with
  | nil =>
    cases h
    cases hv
  | cons word rest ih =>
    rw [List.length_cons]
    rcases scan_cons_cases h with ⟨hbest, rfl⟩ | ⟨kept, -, hrest⟩
    · have hn : cs.best index word min ≠ .noMatch := by
        rw [hbest]
        decide
      obtain ⟨owner, howner, hgrade⟩ := Candidates.exists_best hn
      obtain ⟨a, ha, hshape⟩ := Element.exists_vararg_of_grade (hgrade.trans hbest)
      have hlenient : Grade.vararg ≤ owner.grade index word .any :=
        Element.le_grade_of_takes ha (.vararg hshape)
      have hkept : owner ∈ (cs.narrow index word min).2 := by
        rw [Candidates.mem_narrow_iff, hgrade]
        exact ⟨howner, hn, hbest ▸ hlenient⟩
      dsimp only at honly ⊢
      rw [honly, List.mem_singleton] at hkept
      rw [← hkept]
      exact ⟨by omega, a, ha, hshape⟩
    · obtain ⟨hlt, hshape⟩ := ih hrest
      exact ⟨by omega, hshape⟩

/-- A command that takes as many words has as many levels. -/
theorem Element.le_length_of_takesInFull {e : Element} {words : List String}
    (h : ∀ i < words.length, ∀ word ∈ words[i]?, ∃ a ∈ e.atomsAt i, a.TakesInFull word) :
    words.length ≤ e.levels.length := by
  apply Nat.le_of_not_lt
  intro hlt
  obtain ⟨a, ha, -⟩ := h e.levels.length hlt _ (List.getElem?_eq_getElem hlt)
  have hnone : e.level? e.levels.length = none := List.getElem?_eq_none (Nat.le_refl _)
  rw [atomsAt, hnone] at ha
  cases ha

/-- Where there is no free text, all words are taken in full, and there are as many as
    the command needs. -/
theorem takesInFull_of_resolve {elements : List Element} {words : List String}
    {most : Nat} {r : Resolved} (h : resolve elements words true most = .ok r)
    (hfree : r.element.HasNoVararg) :
    (∀ i < words.length, ∀ word ∈ words[i]?, ∃ a ∈ r.element.atomsAt i, a.TakesInFull word) ∧
      r.element.mandatory ≤ words.length := by
  obtain ⟨s, hscan, hselect, -⟩ := exists_scan_of_resolve h
  rw [threshold, if_pos rfl] at hscan
  obtain ⟨hmem, hends⟩ := mem_of_select hselect
  have hv : s.atVararg = false := by
    rw [← Bool.not_eq_true]
    intro hv
    have honly := select_eq_ok_iff.1 hselect
    rw [hv, List.filter_eq_self.2 (by simp)] at honly
    obtain ⟨-, a, ha, hshape⟩ := exists_vararg_of_scan hscan hv honly
    exact hfree.shape_ne ha hshape
  have hindex := index_of_scan hscan hv
  rw [Nat.zero_add] at hindex
  rw [hv, hindex] at hends
  refine ⟨fun i hi word hword => ?_, hends.resolve_left Bool.false_ne_true⟩
  have htaken := takesInFull_of_scan hscan hmem (by omega) hword
  rwa [Nat.zero_add] at htaken

/-- A line accepted in a configuration text is typed in full for the command it
    is resolved to. -/
theorem isFullyTyped_of_resolve {elements : List Element} {words : List String}
    {maxArguments : Nat} {r : Resolved}
    (h : resolve elements words true maxArguments = .ok r) : r.element.IsFullyTyped words := by
  obtain ⟨s, hscan, hselect, -⟩ := exists_scan_of_resolve h
  rw [threshold, if_pos rfl] at hscan
  obtain ⟨hmem, hends⟩ := mem_of_select hselect
  have hfull : ∀ i < s.index, ∀ word ∈ words[i]?,
      ∃ a ∈ r.element.atomsAt i, a.TakesInFull word := by
    intro i hi word hword
    have htaken := takesInFull_of_scan hscan hmem (by omega) hword
    rwa [Nat.zero_add] at htaken
  refine ⟨s.index, hfull, ?_⟩
  cases hv : s.atVararg with
  | true =>
    have honly := select_eq_ok_iff.1 hselect
    rw [hv, List.filter_eq_self.2 (by simp)] at honly
    obtain ⟨hlt, hshape⟩ := exists_vararg_of_scan hscan hv honly
    rw [Nat.zero_add] at hlt
    exact .inr ⟨hlt, hshape⟩
  | false =>
    have hindex := index_of_scan hscan hv
    rw [Nat.zero_add] at hindex
    rw [hv] at hends
    rw [hindex] at hends hfull ⊢
    exact .inl ⟨rfl, hends.resolve_left (by decide), Element.le_length_of_takesInFull hfull⟩

/-- Routes: one command takes a choice, an address with a mask and a number in
    brackets, the other a name. -/
def routeCommands : List Element :=
  [.ofTexts [["route"], ["add", "del"], ["A.B.C.D/M"], ["[<1-9>]"]],
    .ofTexts [["route"], ["NAME"], ["A.B.C.D/M"], ["TEXT"]]]

/-- `route add 10.0.0.0/8 5` is typed in full for the first command. -/
theorem isFullyTyped_of_resolve_route :
    let words := ["route", "add", "10.0.0.0/8", "5"]
    let found : Resolved :=
      ⟨.ofTexts [["route"], ["add", "del"], ["A.B.C.D/M"], ["[<1-9>]"]], ["add", "10.0.0.0/8", "5"]⟩
    resolve routeCommands words true 256 = .ok found ∧ found.element.IsFullyTyped words := by
  intro words found
  have hfound : resolve routeCommands words true 256 = .ok found := rfl
  exact ⟨hfound, isFullyTyped_of_resolve hfound⟩

end RouterCli
