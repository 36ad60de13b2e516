import Mathlib.Tactic.SplitIfs
import RouterCli.Proofs.Matching.Found

/-!
  RouterCli.Proofs.Matching.Strict

  Resolving a line of which some words are known and others are not. The known
  words in front leave some candidates (`advanceAll`), and a word behind them
  that all of those take alike keeps them all (`advance_of_alike`).
-/

namespace RouterCli

namespace Candidates

-- ============================================================================
-- Known words
-- ============================================================================

/-- The candidates that words leave for the next one. -/
def advanceAll (min : Grade) (index : Nat) (cs : Candidates) : List String → Option Candidates
  | [] => some cs
  | word :: rest =>
    (cs.advance min index word).bind fun kept => advanceAll min (index + 1) kept rest

theorem scan_append_of_advanceAll {min : Grade} {index : Nat} {cs kept : Candidates}
    {words : List String} (h : cs.advanceAll min index words = some kept) (rest : List String) :
    scan min index cs (words ++ rest) = scan min (index + words.length) kept rest := by
  induction words generalizing index cs with
  | nil =>
    cases h
    rfl
  | cons word words ih =>
    rw [advanceAll, Option.bind_eq_some_iff] at h
    obtain ⟨next, hnext, h⟩ := h
    rw [List.cons_append, scan_of_advance hnext, ih h, List.length_cons]
    congr 1
    omega

-- ============================================================================
-- Unknown words
-- ============================================================================

/-- Candidates that do not take the word make no difference. -/
theorem advance_filter (min : Grade) (index : Nat) (cs : Candidates) (word : String) :
    cs.advance min index word =
      advance min index (cs.filter fun e => e.grade index word min != .noMatch) word := by
  have hbest : cs.best index word min =
      best (cs.filter fun e => e.grade index word min != .noMatch) index word min := by
    induction cs with
    | nil => rfl
    | cons e rest ih =>
      by_cases he : e.grade index word min = .noMatch
      · rw [List.filter_cons_of_neg (by simp [he]), ← ih]
        rw [best, List.map_cons, Grade.strongest_cons, he]
        exact Grade.noMatch_max _
      · rw [List.filter_cons_of_pos (by simp [he])]
        simp only [best, List.map_cons, Grade.strongest_cons] at ih ⊢
        rw [ih]
  have hnarrow : cs.narrow index word min =
      narrow (cs.filter fun e => e.grade index word min != .noMatch) index word min := by
    unfold narrow
    simp only [← hbest, List.filter_filter, Bool.and_self]
  unfold advance
  rw [hnarrow]

/-- A word that all candidates take at the same grade, and read alike, keeps
    them all. -/
theorem advance_of_alike {min grade : Grade} {index : Nat} {cs : Candidates} {word : String}
    (hne : cs ≠ []) (hgrade : grade ≠ .noMatch ∧ grade ≠ .vararg)
    (hmin : ∀ e ∈ cs, e.grade index word min = grade)
    (hany : ∀ e ∈ cs, e.grade index word .any = grade)
    (hagree : cs.agreement index word grade = .unique)
    (hhits : ∀ e ∈ cs, (e.atomsAt index).any (hits grade word)) :
    cs.advance min index word = some cs := by
  have hbest : cs.best index word min = grade := by
    obtain ⟨e, rest, rfl⟩ := List.exists_cons_of_ne_nil hne
    refine Grade.le_antisymm ?_ ?_
    · apply best_le
      intro e' he'
      rw [hmin e' he']
      exact Grade.le_refl _
    · rw [← hmin e (by simp)]
      exact grade_le_best (by simp) index word min
  have hnarrow : cs.narrow index word min = (grade, cs) := by
    have hfit : cs.filter (fun e => e.grade index word min != .noMatch) = cs := by
      refine List.filter_eq_self.2 fun e he => ?_
      simp [hmin e he, hgrade.1]
    have hkeep : cs.filter (fun e => decide (grade ≤ e.grade index word .any)) = cs := by
      refine List.filter_eq_self.2 fun e he => ?_
      simp [hany e he, Grade.le_refl]
    unfold narrow
    simp only [hbest, hfit, if_neg hgrade.1, hkeep]
  have hsettle : cs.settle index word grade = (.unique, cs) := by
    unfold settle
    rw [hagree]
    dsimp only
    rw [List.filter_eq_self.2 hhits]
  unfold advance
  simp only [hnarrow, if_neg hgrade.2, hsettle]

/-- Free words are taken by all candidates that have one there. -/
theorem advance_of_variable {min : Grade} {index : Nat} {cs : Candidates} (word : String)
    (hne : cs ≠ []) (h : ∀ e ∈ cs, ∃ a atom, e.level? index = some [a] ∧
      a.token.atom? = some atom ∧ atom.shape = .variable) :
    cs.advance min index word = some cs := by
  have hatoms : ∀ e ∈ cs, ∃ atom, e.atomsAt index = [atom] ∧ atom.shape = .variable := by
    intro e he
    obtain ⟨a, atom, hlevel, hatom, hshape⟩ := h e he
    exact ⟨atom, by simp [Element.atomsAt, hlevel, Level.atoms, hatom], hshape⟩
  have hgrade : ∀ min, ∀ e ∈ cs, e.grade index word min = .extend := by
    intro min e he
    obtain ⟨atom, honly, hshape⟩ := hatoms e he
    exact Element.grade_of_takes honly (.variable hshape)
  refine advance_of_alike hne ⟨by decide, by decide⟩ (hgrade min) (hgrade .any) rfl ?_
  intro e he
  obtain ⟨atom, honly, hshape⟩ := hatoms e he
  simp [honly, hits, Atom.isVariable, hshape, Shape.isVariable]

/-- A number within bounds is taken by a candidate that has a range there. -/
theorem advance_of_range {min : Grade} {index : Nat} {e : Element} {word : String}
    {a : Alternative} {text : String} {range : Range} (hlevel : e.level? index = some [a])
    (htoken : a.token = .bare ⟨text, .range (some range)⟩) (hword : range.accepts word) :
    advance min index [e] word = some [e] := by
  have hatoms : e.atomsAt index = [⟨text, .range (some range)⟩] := by
    simp [Element.atomsAt, hlevel, Level.atoms, htoken, Token.atom?]
  have hgrade : ∀ min, e.grade index word min = .range :=
    fun min => Element.grade_of_takes hatoms (.range rfl hword)
  have hrange : Grade.range ≠ .noMatch ∧ Grade.range ≠ .vararg := ⟨by decide, by decide⟩
  refine advance_of_alike (by simp) hrange (by simp [hgrade]) (by simp [hgrade]) ?_ ?_
  · simp [agreement, hatoms, hits, hword, allAlike]
  · simp [hatoms, hits, hword]

end Candidates

/-- A line of which the first words are known. -/
theorem resolve_of_advanceAll {elements kept : List Element} {words rest args : List String}
    {most : Nat} {s : Scan} {e : Element}
    (h : Candidates.advanceAll .exact 0 elements words = some kept)
    (hscan : scan .exact words.length kept rest = .ok s) (hselect : s.select = .ok e)
    (hargs : arguments e.levels (words ++ rest) = args) (hmost : args.length < most) :
    resolve elements (words ++ rest) true most = .ok ⟨e, args⟩ := by
  have hall := Candidates.scan_append_of_advanceAll h rest
  rw [Nat.zero_add] at hall
  have hfew : ¬ most ≤ args.length := by omega
  rw [resolve_eq, threshold, if_pos rfl, hall, hscan]
  simp only [hselect, hargs, hfew, decide_false, Bool.and_false, Bool.false_eq_true, if_false]

end RouterCli
