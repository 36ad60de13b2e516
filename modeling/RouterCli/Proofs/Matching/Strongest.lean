import RouterCli.Proofs.Matching.Threshold

/-!
  RouterCli.Proofs.Matching.Strongest

  The stronger reading of a word wins under the strict threshold as well
  (`strongest_of_strict_scan`). The second pass of narrowing looks at lenient
  grades, so it leaves commands that only begin a keyword with the word and take
  it as something weaker; settling on the strongest grade drops those
  (`grade_of_mem_advance`). A word that begins free text ends the reading before
  that, and there weaker commands stay (`not_forall_strongest_of_vararg`).
-/

namespace RouterCli

-- ============================================================================
-- Atoms that are hit
-- ============================================================================

/-- Where a word has been taken as a number or as an address without a mask,
    whatever is hit at that grade takes it so. -/
theorem Atom.takes_of_hits {a b : Atom} {word : String} {min g : Grade}
    (hg : g = .range ∨ g = .ipv4 ∨ g = .ipv6) (hb : b.Takes word min g)
    (ha : Candidates.hits g word a = true) : a.Takes word min g := by
  rcases hg with rfl | rfl | rfl
  · exact takes_of_hits_range ha
  · cases hb with
    | ipv4 _ hwalk => exact .ipv4 (by simpa [Candidates.hits] using ha) hwalk
  · cases hb with
    | ipv6 _ hwalk => exact .ipv6 (by simpa [Candidates.hits] using ha) hwalk

-- ============================================================================
-- One word
-- ============================================================================

namespace Candidates

variable {cs kept : Candidates} {e : Element} {index : Nat} {word : String}

/-- The command takes the word under the strict threshold, and as well as any of
    the candidates does. -/
def IsStrongest (cs : Candidates) (index : Nat) (word : String) (e : Element) : Prop :=
  e ∈ cs ∧ e.grade index word .exact ≠ .noMatch ∧
    e.grade index word .exact = cs.best index word .exact

/-- A command that is hit at the grade of a number or of an address without a
    mask has the strongest grade, if this is it. -/
theorem isStrongest_of_hits {g : Grade} (hbest : cs.best index word .exact = g)
    (hg : g = .range ∨ g = .ipv4 ∨ g = .ipv6) (he : e ∈ cs) {a : Atom}
    (ha : a ∈ e.atomsAt index) (hhit : hits g word a = true) :
    a.Takes word .exact g ∧ cs.IsStrongest index word e := by
  have hn : g ≠ .noMatch := by
    rcases hg with rfl | rfl | rfl <;> decide
  obtain ⟨owner, -, hgrade⟩ := exists_best (hbest ▸ hn)
  obtain ⟨b, -, hb⟩ := Element.exists_takes_of_grade (hgrade.trans hbest) hn
  have htakes := Atom.takes_of_hits hg hb hhit
  have hle := grade_le_best he index word .exact
  rw [hbest] at hle
  have hsame := Grade.le_antisymm hle (Element.le_grade_of_takes ha htakes)
  rw [IsStrongest, hsame, hbest]
  exact ⟨htakes, he, hn, rfl⟩

/-- Whatever a word leaves has its strongest grade, unless that is the grade of
    an address with a mask. -/
theorem grade_of_mem_advance (h : cs.advance .exact index word = some kept)
    (hmask : cs.best index word .exact ≠ .ipv4Prefix ∧ cs.best index word .exact ≠ .ipv6Prefix)
    (he : e ∈ kept) : e.grade index word .exact = cs.best index word .exact := by
  obtain ⟨⟨hmem, hfits, hbest⟩, hhits⟩ := (mem_advance_iff h).1 he
  obtain ⟨a, ha, hhit⟩ := List.any_eq_true.1 hhits
  have hle := grade_le_best hmem index word .exact
  cases hg : cs.best index word .exact with
  | noMatch | any | vararg =>
    rw [hg] at hhit
    cases hhit
  | partly => exact absurd hg (cs.best_exact_ne_partly index word)
  | ipv4Prefix => exact absurd hg hmask.1
  | ipv6Prefix => exact absurd hg hmask.2
  | range | ipv4 | ipv6 =>
    rw [hg] at hhit
    rw [(isStrongest_of_hits hg (by simp) hmem ha hhit).2.2.2, hg]
  | extend =>
    -- Nothing that fits is weaker than a free variable.
    have hany := e.grade_ne_any index word .exact
    rw [hg] at hle
    generalize e.grade index word .exact = g at hfits hany hle
    cases g with
    | extend => rfl
    | noMatch => exact absurd rfl hfits
    | any => exact absurd rfl hany
    | _ => exact absurd hle (by decide)
  | exact =>
    -- A keyword that is the word itself is so under both thresholds.
    rw [hg] at hbest
    obtain ⟨b, hb, hkey, htext⟩ := Element.exists_keyword_of_exact_le hbest
    exact Grade.eq_exact_of_le (Element.le_grade_of_takes hb (.keyword hkey htext))

/-- No command of the strongest grade is lost. -/
theorem IsStrongest.mem_advance (hs : cs.IsStrongest index word e)
    (h : cs.advance .exact index word = some kept) : e ∈ kept := by
  obtain ⟨he, hfits, hbest⟩ := hs
  have hvararg := (advance_eq_some_iff.1 h).1
  rw [← hbest] at hvararg
  obtain ⟨a, ha, htakes⟩ := Element.exists_takes_of_grade rfl hfits
  have hlenient := htakes.of_le (show Grade.any ≤ .exact by decide)
  rw [mem_advance_iff h, ← hbest]
  exact ⟨⟨he, hfits, Element.le_grade_of_takes ha hlenient⟩,
    List.any_eq_true.2 ⟨a, ha, hits_of_classify hlenient.classify_eq hfits hvararg⟩⟩

/-- A word that candidates disagree on is a number of two ranges, if it is not
    the start of a keyword. -/
theorem exists_hits_of_ambiguous {grade : Grade} (hpartly : grade ≠ .partly)
    (h : cs.agreement index word grade = .ambiguous) :
    grade = .range ∧ ∃ e ∈ cs, ∃ e' ∈ cs, ∃ a ∈ e.atomsAt index, ∃ a' ∈ e'.atomsAt index,
      hits grade word a = true ∧ hits grade word a' = true ∧ a.text ≠ a'.text := by
  unfold agreement at h
  dsimp only at h
  cases grade with
  | partly => exact absurd rfl hpartly
  | range =>
    dsimp only at h
    split_ifs at h with halike
    rw [allAlike_eq_not_differ, Bool.not_eq_true', Bool.not_eq_false] at halike
    obtain ⟨text, htext, hdiffer⟩ := List.any_eq_true.1 halike
    obtain ⟨text', htext', hne⟩ := List.any_eq_true.1 hdiffer
    obtain ⟨a, ha, rfl⟩ := List.mem_map.1 htext
    obtain ⟨a', ha', rfl⟩ := List.mem_map.1 htext'
    obtain ⟨hatom, hhit⟩ := List.mem_filter.1 ha
    obtain ⟨hatom', hhit'⟩ := List.mem_filter.1 ha'
    obtain ⟨e, he, hmem⟩ := List.mem_flatMap.1 hatom
    obtain ⟨e', he', hmem'⟩ := List.mem_flatMap.1 hatom'
    exact ⟨rfl, e, he, e', he', a, hmem, a', hmem', hhit, hhit', by simpa using hne⟩
  | ipv6Prefix | ipv4Prefix =>
    dsimp only at h
    split_ifs at h
  | noMatch | any | extend | ipv4 | ipv6 | vararg | exact => cases h

end Candidates

-- ============================================================================
-- A word of a line
-- ============================================================================

/-- One word that is found ambiguous is so among the candidates it is compared
    with. -/
theorem agreement_of_scan {min : Grade} {index : Nat} {cs : Candidates} {word : String}
    (h : scan min index cs [word] = .error .ambiguous) :
    Candidates.agreement (cs.narrow index word min).2 index word (cs.best index word min) =
      .ambiguous := by
  unfold scan at h
  dsimp only at h
  rw [Candidates.fst_narrow] at h
  split_ifs at h
  unfold Candidates.settle at h
  cases hagree : Candidates.agreement (cs.narrow index word min).2 index word
      (cs.best index word min) with
  | ambiguous => rfl
  | unique => simp [hagree, scan] at h
  | incomplete => simp [hagree] at h

/-- What a strict reading makes of the word behind those read before, for which
    the candidates `cs` are left. It goes on with the commands of the strongest
    grade and no others; where free text begins, those go on that take the word
    at all and, leniently graded, as well as free text does. Where it finds the
    word ambiguous, two commands of the strongest grade read it as two different
    things. Nothing is said of the grades of addresses with a mask. -/
theorem strongest_of_strict_scan {elements cs : List Element} {done : List String} {index : Nat}
    (word : String) (hbefore : scan .exact 0 elements done = .ok ⟨cs, index, false⟩) :
    (∀ s, scan .exact 0 elements (done ++ [word]) = .ok s → ∀ e,
      (Candidates.best cs index word .exact ∉ [.vararg, .ipv4Prefix, .ipv6Prefix] →
        (e ∈ s.survivors ↔ Candidates.IsStrongest cs index word e)) ∧
      (Candidates.best cs index word .exact = .vararg →
        (e ∈ s.survivors ↔ e ∈ cs ∧ e.grade index word .exact ≠ .noMatch ∧
          .vararg ≤ e.grade index word .any))) ∧
    (scan .exact 0 elements (done ++ [word]) = .error .ambiguous →
      ∃ e e', Candidates.IsStrongest cs index word e ∧ Candidates.IsStrongest cs index word e' ∧
        ∃ a ∈ e.atomsAt index, ∃ a' ∈ e'.atomsAt index, a.text ≠ a'.text ∧
          a.Takes word .exact (Candidates.best cs index word .exact) ∧
          a'.Takes word .exact (Candidates.best cs index word .exact)) := by
  rw [scan_append_of_scan hbefore rfl [word]]
  dsimp only
  constructor
  · intro s hafter e
    rcases scan_cons_cases hafter with ⟨hvararg, rfl⟩ | ⟨kept, hkept, hend⟩
    · rw [hvararg]
      refine ⟨fun hne => absurd List.mem_cons_self hne, fun _ => ?_⟩
      dsimp only
      rw [Candidates.mem_narrow_iff, hvararg]
    · cases hend
      have hvararg := (Candidates.advance_eq_some_iff.1 hkept).1
      refine ⟨fun hother => ?_, fun heq => absurd heq hvararg⟩
      rw [List.mem_cons, List.mem_cons, List.mem_singleton, not_or, not_or] at hother
      constructor
      · intro he
        obtain ⟨⟨hmem, hfits, -⟩, -⟩ := (Candidates.mem_advance_iff hkept).1 he
        exact ⟨hmem, hfits, Candidates.grade_of_mem_advance hkept hother.2 he⟩
      · intro hstrongest
        exact hstrongest.mem_advance hkept
  · intro hafter
    have hagree := agreement_of_scan hafter
    obtain ⟨hrange, e, he, e', he', a, ha, a', ha', hhit, hhit', hne⟩ :=
      Candidates.exists_hits_of_ambiguous (Candidates.best_exact_ne_partly cs index word) hagree
    have hkind : Candidates.best cs index word .exact = .range ∨
        Candidates.best cs index word .exact = .ipv4 ∨
        Candidates.best cs index word .exact = .ipv6 := .inl hrange
    obtain ⟨htakes, hs⟩ := Candidates.isStrongest_of_hits rfl hkind
      (Candidates.mem_narrow_iff.1 he).1 ha hhit
    obtain ⟨htakes', hs'⟩ := Candidates.isStrongest_of_hits rfl hkind
      (Candidates.mem_narrow_iff.1 he').1 ha' hhit'
    exact ⟨e, e', hs, hs', a, ha, a', ha', hne, htakes, htakes'⟩

/-- A number, a free word, and a choice of which one keyword begins like a
    number. -/
def numberCommands : List Element :=
  [.ofTexts [["set"], ["<1-255>"]], .ofTexts [["set"], ["NAME"]],
    .ofTexts [["set"], ["10base", "NAME"]]]

/-- The word `10` of `set 10` leaves the number alone. The choice gets through
    both passes of narrowing, since `10` begins one of its keywords. -/
theorem strongest_of_strict_scan_number :
    scan .exact 0 numberCommands ["set"] = .ok ⟨numberCommands, 1, false⟩ ∧
      (∀ e, e ∈ [Element.ofTexts [["set"], ["<1-255>"]]] ↔
        Candidates.IsStrongest numberCommands 1 "10" e) ∧
      .ofTexts [["set"], ["10base", "NAME"]] ∈
        (Candidates.narrow numberCommands 1 "10" .exact).2 := by
  have hbefore : scan .exact 0 numberCommands ["set"] = .ok ⟨numberCommands, 1, false⟩ := rfl
  have hafter : scan .exact 0 numberCommands (["set"] ++ ["10"]) =
      .ok ⟨[.ofTexts [["set"], ["<1-255>"]]], 2, false⟩ := rfl
  have hother : Candidates.best numberCommands 1 "10" .exact ∉
      [Grade.vararg, .ipv4Prefix, .ipv6Prefix] := by
    decide +kernel
  refine ⟨hbefore, ?_, by decide +kernel⟩
  intro e
  exact ((strongest_of_strict_scan "10" hbefore).1 _ hafter e).1 hother

/-- A free text, and a choice of which one keyword may be begun. -/
def textCommands : List Element :=
  [.ofTexts [["log"], ["foobar", "WORD"]], .ofTexts [["log"], [".TEXT"]]]

/-- A word that begins free text may leave weaker commands: `foo` is free text to
    one of the two commands and a free word to the other, and both are left, so
    that the line `log foo` is ambiguous. -/
theorem not_forall_strongest_of_vararg :
    resolve textCommands ["log", "foo"] true 256 = .error .ambiguous ∧
      ¬ ∀ (elements cs : List Element) (done : List String) (index : Nat) (word : String)
          (s : Scan),
        (∀ e ∈ elements, e.IsCompiled) → (∀ w ∈ done ++ [word], w ≠ "") →
        scan .exact 0 elements done = .ok ⟨cs, index, false⟩ →
        scan .exact 0 elements (done ++ [word]) = .ok s →
        ∀ e ∈ s.survivors,
          Candidates.best cs index word .exact ≤ e.grade index word .exact := by
  refine ⟨rfl, ?_⟩
  intro hall
  have hcompiled : ∀ e ∈ textCommands, e.IsCompiled := by
    intro e he
    rw [textCommands, List.mem_cons, List.mem_singleton] at he
    rcases he with rfl | rfl <;> exact Element.isCompiled_ofTexts _
  have hbefore : scan .exact 0 textCommands ["log"] = .ok ⟨textCommands, 1, false⟩ := rfl
  have hafter : scan .exact 0 textCommands (["log"] ++ ["foo"]) =
      .ok ⟨textCommands, 1, true⟩ := rfl
  have hweaker := hall textCommands textCommands ["log"] 1 "foo" _ hcompiled (by decide) hbefore
    hafter (.ofTexts [["log"], ["foobar", "WORD"]]) List.mem_cons_self
  exact absurd hweaker (by decide +kernel)

end RouterCli
