import RouterCli.Proofs.Matching.OnePass

/-!
  RouterCli.Proofs.Matching.Threshold

  The candidates for one word under two thresholds. Under the strict one the
  strongest grade is never that of a keyword merely begun
  (`Candidates.best_exact_ne_partly`). Which candidates a word leaves is said by
  one equation (`Candidates.advance_eq_some_iff`), and fewer candidates are in
  agreement whenever more are (`Candidates.agreement_of_subset`).
-/

namespace RouterCli

-- ============================================================================
-- Candidates
-- ============================================================================

namespace Candidates

theorem best_exact_ne_partly (cs : Candidates) (index : Nat) (word : String) :
    cs.best index word .exact ≠ .partly := by
  intro h
  have hn : cs.best index word .exact ≠ .noMatch := by
    rw [h]
    decide
  obtain ⟨e, -, he⟩ := exists_best hn
  exact e.grade_exact_ne_partly index word (he.trans h)

/-- Both passes of narrowing, as one. -/
theorem snd_narrow (cs : Candidates) (index : Nat) (word : String) (min : Grade) :
    (cs.narrow index word min).2 =
      cs.filter fun e => e.grade index word min != .noMatch &&
        decide (cs.best index word min ≤ e.grade index word .any) := by
  unfold narrow
  dsimp only
  by_cases hbest : cs.best index word min = .noMatch
  · rw [if_pos hbest, hbest]
    refine List.filter_congr fun e _ => ?_
    rw [decide_eq_true (Grade.noMatch_le _), Bool.and_true]
  · rw [if_neg hbest, List.filter_filter]
    exact List.filter_congr fun e _ => Bool.and_comm _ _

/-- The reading goes on behind a word if that is no free text and those that
    narrowing keeps agree on it; what takes the word at its grade then stays. -/
theorem advance_eq_some_iff {min : Grade} {index : Nat} {cs kept : Candidates} {word : String} :
    cs.advance min index word = some kept ↔
      cs.best index word min ≠ .vararg ∧
        agreement (cs.narrow index word min).2 index word (cs.best index word min) = .unique ∧
        kept = (cs.narrow index word min).2.filter fun e =>
          (e.atomsAt index).any (hits (cs.best index word min) word) := by
  unfold advance
  dsimp only
  rw [fst_narrow]
  by_cases hvararg : cs.best index word min = .vararg
  · simp [hvararg]
  · rw [if_neg hvararg, settle]
    cases hagree : agreement (cs.narrow index word min).2 index word (cs.best index word min) with
    | unique =>
      simp only [Option.some.injEq]
      exact ⟨fun h => ⟨hvararg, trivial, h.symm⟩, fun h => h.2.2.symm⟩
    | ambiguous => simp
    | incomplete => simp

/-- Candidates that agree on a word do so still when some of them are gone. -/
theorem agreement_of_subset {cs cs' : Candidates} {index : Nat} {word : String} {grade : Grade}
    (hsub : cs' ⊆ cs) (h : cs.agreement index word grade = .unique) :
    cs'.agreement index word grade = .unique := by
  have hatoms : cs'.flatMap (·.atomsAt index) ⊆ cs.flatMap (·.atomsAt index) := by
    intro a ha
    obtain ⟨e, he, hmem⟩ := List.mem_flatMap.1 ha
    exact List.mem_flatMap.2 ⟨e, hsub he, hmem⟩
  have halike : ∀ g, allAlike (((cs.flatMap (·.atomsAt index)).filter (hits g word)).map
      (·.text)) = true →
      allAlike (((cs'.flatMap (·.atomsAt index)).filter (hits g word)).map (·.text)) = true := by
    intro g hall
    rw [allAlike_iff] at hall ⊢
    have htexts := List.map_subset Atom.text (List.filter_subset (hits g word) hatoms)
    intro s hs t ht
    exact hall s (htexts hs) t (htexts ht)
  have hsome : (cs.flatMap (·.atomsAt index)).isEmpty = true →
      (cs'.flatMap (·.atomsAt index)).isEmpty = true := by
    intro hempty
    rw [List.isEmpty_iff] at hempty ⊢
    exact List.subset_nil.1 (hempty ▸ hatoms)
  unfold agreement at h ⊢
  dsimp only at h ⊢
  cases grade with
  | partly | range =>
    dsimp only at h ⊢
    split_ifs at h with hall
    rw [if_pos (halike _ hall)]
  | ipv6Prefix | ipv4Prefix =>
    dsimp only at h ⊢
    split_ifs at h with hbegins
    rw [if_neg]
    intro hbegins'
    rw [Bool.and_eq_true, Bool.not_eq_true'] at hbegins hbegins'
    refine hbegins ⟨?_, hbegins'.2⟩
    cases hempty : (cs.flatMap (·.atomsAt index)).isEmpty with
    | false => rfl
    | true =>
      rw [hsome hempty] at hbegins'
      cases hbegins'.1
  | noMatch | any | extend | ipv4 | ipv6 | vararg | exact => rfl

end Candidates

end RouterCli
