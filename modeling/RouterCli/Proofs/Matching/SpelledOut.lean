import RouterCli.Proofs.Matching.Threshold

/-!
  RouterCli.Proofs.Matching.SpelledOut

  A typed line whose words are spelled out means the same in a configuration
  text (`resolve_strict_of_spelledOut`). The lenient and the strict reading go
  side by side: the strict one has fewer candidates left, in the same order, and
  the command that the lenient one comes to is always among them
  (`advance_spelledOut` for a word, `scan_spelledOut` for all of them).
-/

namespace RouterCli

/-- The word is spelled out for the command: the strict threshold grades it as
    the lenient one does. -/
def Element.SpelledOut (e : Element) (index : Nat) (word : String) : Prop :=
  e.grade index word .exact = e.grade index word .any

instance (e : Element) (index : Nat) (word : String) : Decidable (e.SpelledOut index word) :=
  inferInstanceAs (Decidable (e.grade index word .exact = e.grade index word .any))

-- ============================================================================
-- One word
-- ============================================================================

namespace Candidates

variable {cs cs' : Candidates} {e : Element} {index : Nat} {word : String}

/-- Fewer candidates under the strict threshold see the same strongest grade, if
    the strongest command is left and the word is spelled out for it. -/
theorem best_spelledOut (hsub : cs' ⊆ cs) (he : e ∈ cs') (hspelled : e.SpelledOut index word)
    (hbest : cs.best index word .any ≤ e.grade index word .any) :
    cs'.best index word .exact = cs.best index word .any := by
  apply Grade.le_antisymm
  · apply best_le
    intro e' he'
    have hlenient := e'.grade_le_of_le (show Grade.any ≤ .exact by decide) index word
    exact Grade.le_trans hlenient (grade_le_best (hsub he') index word .any)
  · rw [← hspelled] at hbest
    exact Grade.le_trans hbest (grade_le_best he index word .exact)

theorem narrow_spelledOut (hsub : cs'.Sublist cs)
    (hbest : cs'.best index word .exact = cs.best index word .any) :
    (cs'.narrow index word .exact).2.Sublist (cs.narrow index word .any).2 := by
  have hfits : ∀ e : Element, e.grade index word .exact ≠ .noMatch →
      e.grade index word .any ≠ .noMatch := by
    intro e hstrict hnone
    have hle := e.grade_le_of_le (show Grade.any ≤ .exact by decide) index word
    rw [hnone] at hle
    exact hstrict (Grade.le_noMatch_iff.1 hle)
  rw [snd_narrow, snd_narrow, hbest]
  refine List.Sublist.trans ?_ (hsub.filter _)
  -- What the strict passes keep, the lenient ones keep before them.
  have hagain : ∀ e ∈ cs', (e.grade index word .exact != .noMatch &&
      decide (cs.best index word .any ≤ e.grade index word .any)) =
      ((e.grade index word .exact != .noMatch &&
        decide (cs.best index word .any ≤ e.grade index word .any)) &&
      (e.grade index word .any != .noMatch &&
        decide (cs.best index word .any ≤ e.grade index word .any))) := by
    intro e _
    by_cases hstrict : e.grade index word .exact = .noMatch
    · simp [hstrict]
    · simp [hstrict, hfits e hstrict]
  rw [List.filter_congr hagain, ← List.filter_filter]
  exact List.filter_sublist

theorem mem_narrow_spelledOut (he : e ∈ cs') (hspelled : e.SpelledOut index word)
    (hmem : e ∈ (cs.narrow index word .any).2)
    (hbest : cs'.best index word .exact = cs.best index word .any) :
    e ∈ (cs'.narrow index word .exact).2 := by
  obtain ⟨-, hfits, hstrongest⟩ := mem_narrow_iff.1 hmem
  rw [mem_narrow_iff, hspelled, hbest]
  exact ⟨he, hfits, hstrongest⟩

/-- A word that is spelled out for a command keeps it under the strict threshold,
    and nothing that the lenient one drops. -/
theorem advance_spelledOut {kept : Candidates} (hsub : cs'.Sublist cs) (he : e ∈ cs')
    (hspelled : e.SpelledOut index word) (h : cs.advance .any index word = some kept)
    (hmem : e ∈ kept) :
    ∃ kept', cs'.advance .exact index word = some kept' ∧ kept'.Sublist kept ∧ e ∈ kept' := by
  obtain ⟨hvararg, hagree, rfl⟩ := advance_eq_some_iff.1 h
  obtain ⟨hnarrow, hhits⟩ := List.mem_filter.1 hmem
  have hbest := best_spelledOut hsub.subset he hspelled (mem_narrow_iff.1 hnarrow).2.2
  have hfewer := narrow_spelledOut hsub hbest
  have hkept := mem_narrow_spelledOut he hspelled hnarrow hbest
  rw [← hbest] at hvararg hagree hhits ⊢
  exact ⟨_, advance_eq_some_iff.2 ⟨hvararg, agreement_of_subset hfewer.subset hagree, rfl⟩,
    hfewer.filter _, List.mem_filter.2 ⟨hkept, hhits⟩⟩

end Candidates

-- ============================================================================
-- All words
-- ============================================================================

/-- The strict reading of spelled-out words goes as far as the lenient one, and
    comes to fewer commands. -/
theorem scan_spelledOut {index : Nat} {cs cs' : Candidates} {words : List String} {s : Scan}
    {e : Element} (hsub : cs'.Sublist cs) (he : e ∈ cs') (h : scan .any index cs words = .ok s)
    (hmem : e ∈ s.survivors)
    (hspelled : ∀ i, index + i < s.index → ∀ w ∈ words[i]?, e.SpelledOut (index + i) w) :
    ∃ kept, scan .exact index cs' words = .ok ⟨kept, s.index, s.atVararg⟩ ∧
      kept.Sublist s.survivors ∧ e ∈ kept := by
  induction words generalizing index cs cs' with
  | nil =>
    cases h
    exact ⟨cs', rfl, hsub, he⟩
  | cons word rest ih =>
    rcases scan_cons_cases h with ⟨hvararg, rfl⟩ | ⟨kept, hkept, hrest⟩
    · -- Free text needs no spelling: it is graded alike under both thresholds.
      obtain ⟨hcs, -, hbest⟩ := Candidates.mem_narrow_iff.1 hmem
      have hlenient : e.grade index word .any = .vararg := by
        apply Grade.le_antisymm
        · rw [← hvararg]
          exact Candidates.grade_le_best hcs index word .any
        · rw [← hvararg]
          exact hbest
      have hspelled : e.SpelledOut index word :=
        (Element.grade_eq_vararg_of_le (by decide) hlenient).trans hlenient.symm
      have hsame := Candidates.best_spelledOut hsub.subset he hspelled hbest
      exact ⟨_, scan_of_vararg (hsame.trans hvararg) rest, Candidates.narrow_spelledOut hsub hsame,
        Candidates.mem_narrow_spelledOut he hspelled hmem hsame⟩
    · have hbound := (index_le_of_scan hrest).1
      have hfirst : e.SpelledOut index word := hspelled 0 (by omega) word rfl
      obtain ⟨kept', hkept', hsub', he'⟩ := Candidates.advance_spelledOut hsub he hfirst hkept
        (mem_of_scan hrest hmem).1
      rw [scan_of_advance hkept']
      apply ih hsub' he' hrest
      intro i hi w hw
      have hlater := hspelled (i + 1) (by omega) w hw
      rwa [show index + (i + 1) = index + 1 + i by omega] at hlater

/-- Fewer survivors come to the same command, if it is one of them. -/
theorem Scan.select_of_sublist {s : Scan} {kept : Candidates} {e : Element}
    (h : s.select = .ok e) (hsub : kept.Sublist s.survivors) (he : e ∈ kept) :
    Scan.select ⟨kept, s.index, s.atVararg⟩ = .ok e := by
  have honly := select_eq_ok_iff.1 h
  have hfewer := hsub.filter fun e => s.atVararg || decide (e.mandatory ≤ s.index)
  have hleft : e ∈ kept.filter fun e => s.atVararg || decide (e.mandatory ≤ s.index) := by
    have hself := List.mem_singleton_self e
    rw [← honly] at hself
    exact List.mem_filter.2 ⟨he, (List.mem_filter.1 hself).2⟩
  rw [honly] at hfewer
  exact select_eq_ok_iff.2 (hfewer.eq_of_length_le (List.length_pos_of_mem hleft))

/-- A typed line is accepted in a configuration text as the same command with
    the same arguments, if each word up to the end, or up to the free text, is
    spelled out for that command. -/
theorem resolve_strict_of_spelledOut {elements : List Element} {words : List String}
    {maxArguments : Nat} {r : Resolved} {s : Scan}
    (h : resolve elements words false maxArguments = .ok r)
    (hscan : scan .any 0 elements words = .ok s)
    (hspelled : ∀ i < s.index, ∀ w ∈ words[i]?, r.element.SpelledOut i w) :
    resolve elements words true maxArguments = .ok r := by
  obtain ⟨s', hscan', hselect, -⟩ := exists_scan_of_resolve h
  obtain rfl : s' = s := Except.ok.inj (hscan'.symm.trans hscan)
  have hmem := (mem_of_select hselect).1
  obtain ⟨kept, hstrict, hsub, he⟩ := scan_spelledOut (List.Sublist.refl elements)
    (mem_of_scan hscan hmem).1 hscan hmem
    (by
      intro i hi w hw
      rw [Nat.zero_add] at hi ⊢
      exact hspelled i hi w hw)
  have hselect' := Scan.select_of_sublist hselect hsub he
  rw [resolve_eq, hscan'] at h
  dsimp only at h
  rw [hselect] at h
  rw [resolve_eq, threshold, if_pos rfl, hstrict]
  dsimp only
  rw [hselect']
  exact h

/-- Three commands that differ in how far their words are abbreviations of each
    other, and in what follows the level. -/
def levelCommands : List Element :=
  [.ofTexts [["log"], ["level"], ["<0-7>"], [".TEXT"]],
    .ofTexts [["log"], ["level", "levels"], ["NAME"]],
    .ofTexts [["logging"], ["level"], ["<0-7>"]]]

/-- In `log level 5 link down` the first three words are spelled out, and the
    others are free text. -/
theorem resolve_strict_of_spelledOut_level :
    let words := ["log", "level", "5", "link", "down"]
    let found : Resolved :=
      ⟨.ofTexts [["log"], ["level"], ["<0-7>"], [".TEXT"]], ["5", "link", "down"]⟩
    resolve levelCommands words false 256 = .ok found ∧
      scan .any 0 levelCommands words = .ok ⟨[found.element], 3, true⟩ ∧
      (∀ i < 3, ∀ w ∈ words[i]?, found.element.SpelledOut i w) ∧
      resolve levelCommands words true 256 = .ok found := by
  intro words found
  have hlenient : resolve levelCommands words false 256 = .ok found := rfl
  have hscan : scan .any 0 levelCommands words = .ok ⟨[found.element], 3, true⟩ := rfl
  have hspelled : ∀ i < 3, ∀ w ∈ words[i]?, found.element.SpelledOut i w := by decide +kernel
  exact ⟨hlenient, hscan, hspelled, resolve_strict_of_spelledOut hlenient hscan hspelled⟩

end RouterCli
