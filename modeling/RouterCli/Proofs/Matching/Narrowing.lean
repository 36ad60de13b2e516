import RouterCli.Proofs.Matching.Threshold
import RouterCli.Proofs.Pattern.Compiled

/-!
  RouterCli.Proofs.Matching.Narrowing

  Narrowing as an operation on lists of candidates. It looks at each candidate
  apart from the others but for the strongest grade, and that grade is never lost:
  a candidate that has it at the threshold has at least as much leniently, and so
  gets through the second pass (`mem_narrow_of_best`). Hence something is left
  whenever anything fits (`snd_narrow_eq_nil_iff`), what is left has the same
  strongest grade (`best_snd_narrow`), and narrowing by the same word again changes
  nothing (`narrow_settled`). All this needs a threshold that asks for a match at all:
  one of `noMatch` lets any word pass for an address.
-/

namespace RouterCli

namespace Candidates

variable {cs : Candidates} {e : Element} {index : Nat} {word : String} {min : Grade}

theorem narrow_eq_mk (cs : Candidates) (index : Nat) (word : String) (min : Grade) :
    cs.narrow index word min = (cs.best index word min, (cs.narrow index word min).2) := by
  rw [← fst_narrow]

theorem sublist_snd_narrow (cs : Candidates) (index : Nat) (word : String) (min : Grade) :
    (cs.narrow index word min).2.Sublist cs := by
  rw [snd_narrow]
  exact List.filter_sublist

/-- What has the strongest grade at the threshold has it leniently too, so the
    second pass keeps it. -/
theorem mem_narrow_of_best (hmin : .any ≤ min) (he : e ∈ cs)
    (hbest : e.grade index word min = cs.best index word min)
    (hn : cs.best index word min ≠ .noMatch) : e ∈ (cs.narrow index word min).2 := by
  have hlenient : e.grade index word min ≤ e.grade index word .any :=
    Element.grade_le_of_le hmin e index word
  rw [hbest] at hlenient
  exact mem_narrow_iff.2 ⟨he, hbest ▸ hn, hlenient⟩

theorem snd_narrow_eq_nil_iff (hmin : .any ≤ min) :
    (cs.narrow index word min).2 = [] ↔ cs.best index word min = .noMatch := by
  constructor
  · intro hnil
    refine Decidable.byContradiction fun hn => ?_
    obtain ⟨e, he, hbest⟩ := exists_best hn
    have hmem := mem_narrow_of_best hmin he hbest hn
    rw [hnil] at hmem
    exact absurd hmem List.not_mem_nil
  · intro hnone
    apply List.eq_nil_iff_forall_not_mem.2
    intro e he
    obtain ⟨hmem, hfits, -⟩ := mem_narrow_iff.1 he
    have hle := grade_le_best hmem index word min
    rw [hnone] at hle
    exact hfits (Grade.le_noMatch_iff.1 hle)

/-- What is left has the strongest grade of all there was. -/
theorem best_snd_narrow (hmin : .any ≤ min) :
    best (cs.narrow index word min).2 index word min = cs.best index word min := by
  apply Grade.le_antisymm
  · apply best_le
    intro e he
    exact grade_le_best (mem_narrow_iff.1 he).1 index word min
  · by_cases hn : cs.best index word min = .noMatch
    · rw [hn]
      exact Grade.noMatch_le _
    · obtain ⟨e, he, hbest⟩ := exists_best hn
      rw [← hbest]
      exact grade_le_best (mem_narrow_of_best hmin he hbest hn) index word min

/-- Narrowing takes candidates out of the list and leaves the others as they
    stand. No candidate has a stronger grade than the one returned, and none that
    has this grade is taken out. It finds no match exactly where nothing is left,
    and another time it finds the same grade and takes out nothing. -/
theorem narrow_settled (cs : Candidates) (index : Nat) (word : String) {min : Grade}
    (hmin : .any ≤ min) :
    (cs.narrow index word min).2.Sublist cs ∧
      (∀ e ∈ cs, e.grade index word min ≤ (cs.narrow index word min).1 ∧
        (e.grade index word min = (cs.narrow index word min).1 → e.grade index word min ≠ .noMatch →
          e ∈ (cs.narrow index word min).2)) ∧
      ((cs.narrow index word min).1 = .noMatch ↔ (cs.narrow index word min).2 = []) ∧
      narrow (cs.narrow index word min).2 index word min = cs.narrow index word min := by
  have hsame : best (cs.narrow index word min).2 index word min = cs.best index word min :=
    best_snd_narrow hmin
  have hkept : (narrow (cs.narrow index word min).2 index word min).2 =
      (cs.narrow index word min).2 := by
    rw [snd_narrow, hsame]
    refine List.filter_eq_self.2 fun e he => ?_
    obtain ⟨-, hfits, hbest⟩ := mem_narrow_iff.1 he
    simp [hfits, hbest]
  refine ⟨sublist_snd_narrow cs index word min, ?_, ?_, ?_⟩
  · rw [fst_narrow]
    intro e he
    refine ⟨grade_le_best he index word min, fun hbest hfits => ?_⟩
    exact mem_narrow_of_best hmin he hbest (hbest ▸ hfits)
  · rw [fst_narrow]
    exact (snd_narrow_eq_nil_iff hmin).symm
  · rw [narrow_eq_mk, hsame, hkept]
    exact (narrow_eq_mk cs index word min).symm

/-- A choice of which one keyword begins like a number, a number, and a free
    word. -/
def speedCommands : List Element :=
  [.ofTexts [["10base", "NAME"]], .ofTexts [["<1-255>"]], .ofTexts [["NAME"]]]

/-- The word `10` under the strict threshold. The number has the strongest grade;
    the choice takes the word as a name only, but leniently as the start of a
    keyword, and so it is left both times. -/
theorem narrow_settled_speed :
    let kept := [Element.ofTexts [["10base", "NAME"]], .ofTexts [["<1-255>"]]]
    Grade.any ≤ .exact ∧ narrow speedCommands 0 "10" .exact = (.range, kept) ∧
      kept.Sublist speedCommands ∧ narrow kept 0 "10" .exact = (.range, kept) := by
  intro kept
  have hmin : Grade.any ≤ .exact := by decide
  have honce : narrow speedCommands 0 "10" .exact = (.range, kept) := rfl
  obtain ⟨hsublist, -, -, htwice⟩ := narrow_settled speedCommands 0 "10" hmin
  rw [honce] at hsublist htwice
  exact ⟨hmin, honce, hsublist, htwice⟩

/-- Under a threshold of no match a word that no candidate fits has a grade, and
    nothing is left. -/
example : narrow [.ofTexts [["A.B.C.D"]]] 0 "x" .noMatch = (.ipv4, []) := by
  decide +kernel

end Candidates

end RouterCli
