import Mathlib.Tactic.SplitIfs
import RouterCli.Matching.Resolve
import RouterCli.Proofs.Matching.Takes

/-!
  RouterCli.Proofs.Matching.Found

  What is known of the command that a line is resolved to: it fits every word,
  and no command that agrees with it up to a word fits that word better
  (`found_of_resolve`). A scan whose first words are known goes on with the
  commands they leave (`scan_of_advance`).
-/

namespace RouterCli

-- ============================================================================
-- One word
-- ============================================================================

namespace Candidates

theorem grade_le_best {cs : Candidates} {e : Element} (he : e ∈ cs) (index : Nat) (word : String)
    (min : Grade) : e.grade index word min ≤ cs.best index word min :=
  Grade.le_strongest (List.mem_map_of_mem he)

/-- Some candidate has the strongest grade, unless nothing matches. -/
theorem exists_best {cs : Candidates} {index : Nat} {word : String} {min : Grade}
    (hn : cs.best index word min ≠ .noMatch) :
    ∃ e ∈ cs, e.grade index word min = cs.best index word min :=
  List.mem_map.1 (Grade.strongest_mem hn)

theorem best_le {cs : Candidates} {index : Nat} {word : String} {min g : Grade}
    (h : ∀ e ∈ cs, e.grade index word min ≤ g) : cs.best index word min ≤ g := by
  by_cases hn : cs.best index word min = .noMatch
  · rw [hn]
    exact Grade.noMatch_le g
  · obtain ⟨e, he, hbest⟩ := exists_best hn
    rw [← hbest]
    exact h e he

/-- Narrowing keeps what fits the word at the threshold and, at its best, as
    well as anything fits it there. -/
theorem mem_narrow_iff {cs : Candidates} {e : Element} {index : Nat} {word : String}
    {min : Grade} :
    e ∈ (cs.narrow index word min).2 ↔
      e ∈ cs ∧ e.grade index word min ≠ .noMatch ∧
        cs.best index word min ≤ e.grade index word .any := by
  unfold narrow
  dsimp only
  split_ifs with hbest
  · rw [List.mem_filter, hbest]
    simp [Grade.noMatch_le]
  · rw [List.mem_filter, List.mem_filter]
    simp [and_assoc]

theorem fst_narrow (cs : Candidates) (index : Nat) (word : String) (min : Grade) :
    (cs.narrow index word min).1 = cs.best index word min := by
  unfold narrow
  dsimp only
  split_ifs with hbest
  · exact hbest.symm
  · rfl

theorem mem_settle_iff {cs agreed : Candidates} {index : Nat} {word : String} {grade : Grade}
    (h : cs.settle index word grade = (.unique, agreed)) {e : Element} :
    e ∈ agreed ↔ e ∈ cs ∧ (e.atomsAt index).any (hits grade word) := by
  unfold settle at h
  split at h
  · simp only [Prod.mk.injEq, true_and] at h
    rw [← h, List.mem_filter]
  · rename_i hne
    exact absurd (congrArg Prod.fst h) hne

/-- The candidates that one word leaves for the next, if the reading goes on. -/
def advance (min : Grade) (index : Nat) (cs : Candidates) (word : String) : Option Candidates :=
  let narrowed := cs.narrow index word min
  if narrowed.1 = .vararg then none
  else
    match narrowed.2.settle index word narrowed.1 with
    | (.unique, agreed) => some agreed
    | _ => none

theorem mem_advance_iff {min : Grade} {index : Nat} {cs kept : Candidates} {word : String}
    (h : cs.advance min index word = some kept) {e : Element} :
    e ∈ kept ↔
      (e ∈ cs ∧ e.grade index word min ≠ .noMatch ∧
        cs.best index word min ≤ e.grade index word .any) ∧
        (e.atomsAt index).any (hits (cs.best index word min) word) := by
  unfold advance at h
  dsimp only at h
  split_ifs at h
  split at h
  · rename_i agreed hsettle
    cases h
    rw [mem_settle_iff hsettle, mem_narrow_iff, fst_narrow]
  · cases h

/-- Two candidates with the same alternatives at a word go on together. -/
theorem mem_advance_of_level?_eq {min : Grade} {index : Nat} {cs kept : Candidates}
    {word : String} (h : cs.advance min index word = some kept) {e e' : Element}
    (he : e ∈ kept) (he' : e' ∈ cs) (hlevel : e'.level? index = e.level? index) : e' ∈ kept := by
  have hgrade : ∀ min, e'.grade index word min = e.grade index word min := by
    intro min
    rw [Element.grade, Element.grade, hlevel]
  have hatoms : e'.atomsAt index = e.atomsAt index := by
    rw [Element.atomsAt, Element.atomsAt, hlevel]
  rw [mem_advance_iff h] at he ⊢
  rw [hgrade, hgrade, hatoms]
  exact ⟨⟨he', he.1.2⟩, he.2⟩

end Candidates

-- ============================================================================
-- All words
-- ============================================================================

theorem scan_of_advance {min : Grade} {index : Nat} {cs kept : Candidates} {word : String}
    (h : cs.advance min index word = some kept) (rest : List String) :
    scan min index cs (word :: rest) = scan min (index + 1) kept rest := by
  unfold Candidates.advance at h
  dsimp only at h
  split_ifs at h with hvararg
  split at h
  · rename_i agreed hsettle
    cases h
    simp only [scan, if_neg hvararg, hsettle]
  · cases h

/-- A reading ends at free text, or goes on with what a word leaves. -/
theorem scan_cons_cases {min : Grade} {index : Nat} {cs : Candidates} {word : String}
    {rest : List String} {s : Scan} (h : scan min index cs (word :: rest) = .ok s) :
    (cs.best index word min = .vararg ∧ s = ⟨(cs.narrow index word min).2, index, true⟩) ∨
      ∃ kept, cs.advance min index word = some kept ∧
        scan min (index + 1) kept rest = .ok s := by
  simp only [scan] at h
  split_ifs at h with hvararg
  · rw [Candidates.fst_narrow] at hvararg
    exact .inl ⟨hvararg, (Except.ok.inj h).symm⟩
  · refine .inr ?_
    unfold Candidates.advance
    dsimp only
    rw [if_neg hvararg]
    split at h
    · cases h
    · cases h
    · rename_i agreed hsettle
      rw [hsettle]
      exact ⟨agreed, rfl, h⟩

theorem scan_of_vararg {min : Grade} {index : Nat} {cs : Candidates} {word : String}
    (h : cs.best index word min = .vararg) (rest : List String) :
    scan min index cs (word :: rest) = .ok ⟨(cs.narrow index word min).2, index, true⟩ := by
  have hnarrow := cs.fst_narrow index word min
  rw [h] at hnarrow
  rw [scan]
  dsimp only
  rw [if_pos hnarrow]

/-- A reading that comes to its end goes on from there with further words. -/
theorem scan_append_of_scan {min : Grade} {index : Nat} {cs : Candidates} {words : List String}
    {s : Scan} (h : scan min index cs words = .ok s) (hv : s.atVararg = false)
    (rest : List String) : scan min index cs (words ++ rest) = scan min s.index s.survivors rest := by
  induction words generalizing index cs with
  | nil =>
    cases h
    rfl
  | cons word words ih =>
    rcases scan_cons_cases h with ⟨-, rfl⟩ | ⟨kept, hkept, hrest⟩
    · cases hv
    · rw [List.cons_append, scan_of_advance hkept]
      exact ih hrest

/-- A reading stops at one of its words or behind the last of them. -/
theorem index_le_of_scan {min : Grade} {index : Nat} {cs : Candidates} {words : List String}
    {s : Scan} (h : scan min index cs words = .ok s) :
    index ≤ s.index ∧ s.index ≤ index + words.length := by
  induction words generalizing index cs with
  | nil =>
    cases h
    exact ⟨Nat.le_refl _, Nat.le_refl _⟩
  | cons word rest ih =>
    rw [List.length_cons]
    rcases scan_cons_cases h with ⟨-, rfl⟩ | ⟨kept, -, hrest⟩
    · dsimp only
      omega
    · have := ih hrest
      omega

/-- A scan that no free text stopped has read all words. -/
theorem index_of_scan {min : Grade} {index : Nat} {cs : List Element} {words : List String}
    {s : Scan} (h : scan min index cs words = .ok s) (hv : s.atVararg = false) :
    s.index = index + words.length := by
  induction words generalizing index cs with
  | nil =>
    simp only [scan, Except.ok.injEq] at h
    rw [← h]
    rfl
  | cons word rest ih =>
    simp only [scan] at h
    split at h
    · simp only [Except.ok.injEq] at h
      rw [← h] at hv
      cases hv
    · split at h
      · cases h
      · cases h
      · rw [ih h, List.length_cons]
        omega

/-- What is left of the candidates fits every word that was read, each as well
    as any candidate that is like it up to there. -/
theorem mem_of_scan {min : Grade} {index : Nat} {cs : Candidates} {words : List String}
    {s : Scan} (h : scan min index cs words = .ok s) {e : Element} (he : e ∈ s.survivors) :
    e ∈ cs ∧ ∀ i w, words[i]? = some w → index + i ≤ s.index →
      e.grade (index + i) w min ≠ .noMatch ∧
        ∀ e' ∈ cs, (∀ j < i, e'.level? (index + j) = e.level? (index + j)) →
          e'.grade (index + i) w min ≤ e.grade (index + i) w .any := by
  induction words generalizing index cs with
  | nil =>
    simp only [scan, Except.ok.injEq] at h
    subst h
    exact ⟨he, by simp⟩
  | cons word rest ih =>
    rcases scan_cons_cases h with ⟨-, rfl⟩ | ⟨kept, hkept, hrest⟩
    · obtain ⟨hmem, hfits, hbest⟩ := Candidates.mem_narrow_iff.1 he
      refine ⟨hmem, ?_⟩
      intro i w hw hi
      have hzero : i = 0 := by
        dsimp only at hi
        omega
      subst hzero
      simp only [List.getElem?_cons_zero, Option.some.injEq] at hw
      subst hw
      exact ⟨hfits, fun e' he' _ =>
        Grade.le_trans (Candidates.grade_le_best he' index word min) hbest⟩
    · obtain ⟨hmem, hlater⟩ := ih hrest
      obtain ⟨⟨hmem', hfits, hbest⟩, -⟩ := (Candidates.mem_advance_iff hkept).1 hmem
      refine ⟨hmem', ?_⟩
      intro i w hw hi
      cases i with
      | zero =>
        simp only [List.getElem?_cons_zero, Option.some.injEq] at hw
        subst hw
        exact ⟨hfits, fun e' he' _ =>
          Grade.le_trans (Candidates.grade_le_best he' index word min) hbest⟩
      | succ i =>
        rw [List.getElem?_cons_succ] at hw
        rw [show index + (i + 1) = index + 1 + i by omega] at hi ⊢
        obtain ⟨hfit, hstrongest⟩ := hlater i w hw hi
        refine ⟨hfit, ?_⟩
        intro e' he' hlevels
        have he'' := Candidates.mem_advance_of_level?_eq hkept hmem he'
          (hlevels 0 (Nat.succ_pos i))
        refine hstrongest e' he'' ?_
        intro j hj
        have := hlevels (j + 1) (by omega)
        rwa [show index + (j + 1) = index + 1 + j by omega] at this

/-- Every word before the place where a reading stopped has left, of candidates
    among those at the start, some that the survivors are among. -/
theorem exists_advance_of_scan {min : Grade} {index : Nat} {cs : Candidates}
    {words : List String} {s : Scan} (h : scan min index cs words = .ok s) {i : Nat}
    {word : String} (hword : words[i]? = some word) (hi : index + i < s.index) :
    ∃ before kept : Candidates, before.advance min (index + i) word = some kept ∧
      before ⊆ cs ∧ s.survivors ⊆ kept := by
  induction words generalizing index cs i with
  | nil => cases hword
  | cons first rest ih =>
    rcases scan_cons_cases h with ⟨-, rfl⟩ | ⟨kept, hkept, hrest⟩
    · dsimp only at hi
      omega
    · have hfewer : kept ⊆ cs := fun e he => ((Candidates.mem_advance_iff hkept).1 he).1.1
      cases i with
      | zero =>
        obtain rfl : first = word := Option.some.inj hword
        exact ⟨cs, kept, hkept, List.Subset.refl cs, fun e he => (mem_of_scan hrest he).1⟩
      | succ i =>
        rw [show index + (i + 1) = index + 1 + i by omega] at hi ⊢
        obtain ⟨before, kept', hkept', hbefore, hsurvivors⟩ := ih hrest hword hi
        exact ⟨before, kept', hkept', List.Subset.trans hbefore hfewer, hsurvivors⟩

-- ============================================================================
-- Free text
-- ============================================================================

/-- No alternative of the command is free text. -/
def Element.HasNoVararg (e : Element) : Prop :=
  ∀ level ∈ e.levels, ∀ atom ∈ level.atoms, atom.shape ≠ .vararg

theorem Element.HasNoVararg.shape_ne {e : Element} (h : e.HasNoVararg) {index : Nat} {a : Atom}
    (ha : a ∈ e.atomsAt index) : a.shape ≠ .vararg := by
  unfold atomsAt at ha
  split at ha
  · rename_i level hlevel
    exact h level (List.mem_of_getElem? hlevel) a ha
  · cases ha

theorem Element.HasNoVararg.grade_ne {e : Element} (h : e.HasNoVararg) (index : Nat)
    (word : String) (min : Grade) : e.grade index word min ≠ .vararg := by
  intro hgrade
  obtain ⟨a, ha, hshape⟩ := exists_vararg_of_grade hgrade
  exact h.shape_ne ha hshape

/-- A reading that free text ended leaves commands with free text. -/
theorem atVararg_of_scan {index : Nat} {cs : Candidates} {words : List String} {s : Scan}
    (h : scan .any index cs words = .ok s) {e : Element} (he : e ∈ s.survivors)
    (hfree : e.HasNoVararg) : s.atVararg = false := by
  induction words generalizing index cs with
  | nil =>
    simp only [scan, Except.ok.injEq] at h
    rw [← h]
  | cons word rest ih =>
    rcases scan_cons_cases h with ⟨hvararg, rfl⟩ | ⟨kept, -, hrest⟩
    · obtain ⟨hmem, -, hbest⟩ := Candidates.mem_narrow_iff.1 he
      have hle := Candidates.grade_le_best hmem index word .any
      rw [hvararg] at hbest hle
      exact absurd (Grade.le_antisymm hle hbest) (hfree.grade_ne index word .any)
    · exact ih hrest

-- ============================================================================
-- The answer
-- ============================================================================

theorem mem_of_mem_arguments {levels : List Level} {words : List String} {w : String}
    (h : w ∈ arguments levels words) : w ∈ words := by
  induction words generalizing levels with
  | nil =>
    cases levels <;> simp [arguments] at h
  | cons word rest ih =>
    cases levels with
    | nil => exact h
    | cons level levels =>
      have hcons : w ∈ word :: arguments levels rest → w ∈ word :: rest := by
        intro hw
        rcases List.mem_cons.1 hw with rfl | hw
        · exact List.mem_cons_self
        · exact List.mem_cons_of_mem _ (ih hw)
      unfold arguments at h
      split at h
      · split_ifs at h
        · exact h
        · exact hcons h
        · exact List.mem_cons_of_mem _ (ih h)
      · exact hcons h

/-- The command selected is the only one that may end where the reading did. -/
theorem select_eq_ok_iff {s : Scan} {e : Element} :
    s.select = .ok e ↔
      (s.survivors.filter fun e => s.atVararg || decide (e.mandatory ≤ s.index)) = [e] := by
  unfold Scan.select
  constructor
  · intro h
    split at h
    · rename_i e' hfilter
      cases h
      exact hfilter
    · cases h
    · cases h
  · intro h
    rw [h]

theorem mem_of_select {s : Scan} {e : Element} (h : s.select = .ok e) :
    e ∈ s.survivors ∧ (s.atVararg = true ∨ e.mandatory ≤ s.index) := by
  have hmem : e ∈ s.survivors.filter fun e => s.atVararg || decide (e.mandatory ≤ s.index) := by
    rw [select_eq_ok_iff.1 h]
    exact List.mem_singleton_self e
  simpa using List.mem_filter.1 hmem

/-- The steps of resolving, written out. -/
theorem resolve_eq (elements : List Element) (words : List String) (strict : Bool) (most : Nat) :
    resolve elements words strict most =
      match scan (threshold strict) 0 elements words with
      | .error e => .error e
      | .ok s =>
        match s.select with
        | .error e => .error e
        | .ok e =>
          if !words.isEmpty && most ≤ (arguments e.levels words).length then
            .error .tooManyArguments
          else .ok ⟨e, arguments e.levels words⟩ := by
  unfold resolve
  simp only [bind, Except.bind, pure, Except.pure]
  cases scan (threshold strict) 0 elements words with
  | error e => rfl
  | ok s =>
    dsimp only
    cases s.select with
    | error e => rfl
    | ok e => rfl

/-- The command found, and how its arguments come about. -/
theorem exists_scan_of_resolve {elements : List Element} {words : List String} {strict : Bool}
    {most : Nat} {r : Resolved} (h : resolve elements words strict most = .ok r) :
    ∃ s, scan (threshold strict) 0 elements words = .ok s ∧ s.select = .ok r.element ∧
      r.arguments = arguments r.element.levels words := by
  rw [resolve_eq] at h
  split at h
  · cases h
  · rename_i s hscan
    split at h
    · cases h
    · rename_i e hselect
      split_ifs at h
      cases h
      exact ⟨s, hscan, hselect, rfl⟩

theorem mem_of_resolve {elements : List Element} {words : List String} {strict : Bool}
    {most : Nat} {r : Resolved} (h : resolve elements words strict most = .ok r) :
    r.element ∈ elements ∧ ∀ w ∈ r.arguments, w ∈ words := by
  obtain ⟨s, hscan, hselect, hargs⟩ := exists_scan_of_resolve h
  refine ⟨(mem_of_scan hscan (mem_of_select hselect).1).1, ?_⟩
  intro w hw
  rw [hargs] at hw
  exact mem_of_mem_arguments hw

/-- What is known of a command without free text that typed words were resolved
    to. -/
structure Resolved.Fits (elements : List Element) (words : List String) (r : Resolved) : Prop where
  /-- Its arguments are read off its levels. -/
  arguments : r.arguments = RouterCli.arguments r.element.levels words
  mandatory : r.element.mandatory ≤ words.length
  length : words.length ≤ r.element.levels.length
  fits : ∀ i w, words[i]? = some w → r.element.grade i w .any ≠ .noMatch
  /-- No other command that has the same levels before fits it better. -/
  strongest : ∀ i w, words[i]? = some w → ∀ e ∈ elements,
    (∀ j < i, e.level? j = r.element.level? j) → e.grade i w .any ≤ r.element.grade i w .any

theorem fits_of_resolve {elements : List Element} {words : List String} {most : Nat}
    {r : Resolved} (h : resolve elements words false most = .ok r)
    (hfree : r.element.HasNoVararg) : r.Fits elements words := by
  obtain ⟨s, hscan, hselect, hargs⟩ := exists_scan_of_resolve h
  obtain ⟨hmem, hmandatory⟩ := mem_of_select hselect
  have hvararg := atVararg_of_scan hscan hmem hfree
  have hindex := index_of_scan hscan hvararg
  have hfits := (mem_of_scan hscan hmem).2
  have hle : ∀ i w, words[i]? = some w → 0 + i ≤ s.index := by
    intro i w hw
    have := (List.getElem?_eq_some_iff.1 hw).1
    omega
  have hfit : ∀ i w, words[i]? = some w → r.element.grade i w .any ≠ .noMatch := by
    intro i w hw
    simpa [threshold] using (hfits i w hw (hle i w hw)).1
  refine ⟨hargs, ?_, ?_, hfit, ?_⟩
  · rcases hmandatory with htrue | hmandatory
    · rw [hvararg] at htrue
      cases htrue
    · omega
  · refine Nat.le_of_not_lt fun hlt => ?_
    have hw : words[r.element.levels.length]? = some words[r.element.levels.length] :=
      List.getElem?_eq_getElem hlt
    exact hfit _ _ hw (by simp [Element.grade, Element.level?])
  · intro i w hw e he hlevels
    have := (hfits i w hw (hle i w hw)).2 e he (by simpa using hlevels)
    simpa [threshold] using this

end RouterCli
