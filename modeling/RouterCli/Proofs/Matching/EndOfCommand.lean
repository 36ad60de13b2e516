import RouterCli.Proofs.Matching.Found
import RouterCli.Proofs.Matching.Offered
import RouterCli.Proofs.Pattern.Compiled

/-!
  RouterCli.Proofs.Matching.EndOfCommand

  Help and resolving agree on where a command may end (`endOfCommand_offered`).
  Both read the words in the same way. Where help tells the end of a command, some
  command that is left may end (`Scan.MayEnd`), and then the words are neither
  unknown nor too few (`resolve_of_mayEnd`); and a command that was resolved with
  all its levels typed has its end told, unless a token is written like it.
-/

namespace RouterCli

variable {min : Grade} {index : Nat} {cs elements : Candidates} {words : List String} {s : Scan}
  {e : Element}

-- ============================================================================
-- Where a reading stops
-- ============================================================================

/-- Further words change nothing behind free text. -/
theorem scan_append_of_atVararg (h : scan min index cs words = .ok s) (hv : s.atVararg = true)
    (rest : List String) : scan min index cs (words ++ rest) = .ok s := by
  induction words generalizing index cs with
  | nil =>
    cases h
    cases hv
  | cons word words ih =>
    rcases scan_cons_cases h with ⟨hbest, rfl⟩ | ⟨kept, hkept, hrest⟩
    · exact scan_of_vararg hbest (words ++ rest)
    · rw [List.cons_append, scan_of_advance hkept]
      exact ih hrest

/-- The free text that stops a reading belongs to a command that is left. -/
theorem exists_survivor_of_atVararg (h : scan .any index cs words = .ok s)
    (hv : s.atVararg = true) : ∃ e, e ∈ s.survivors := by
  induction words generalizing index cs with
  | nil =>
    cases h
    cases hv
  | cons word words ih =>
    rcases scan_cons_cases h with ⟨hbest, rfl⟩ | ⟨kept, -, hrest⟩
    · have hmatches : cs.best index word .any ≠ .noMatch := by
        rw [hbest]
        decide
      obtain ⟨e, he, hgrade⟩ := Candidates.exists_best hmatches
      refine ⟨e, Candidates.mem_narrow_iff.2 ⟨he, ?_, ?_⟩⟩
      · rw [hgrade]
        exact hmatches
      · rw [hgrade]
        exact Grade.le_refl _
    · exact ih hrest

/-- A command that is left has a level for every word that was read. -/
theorem length_le_of_scan (h : scan min 0 cs words = .ok s) (hv : s.atVararg = false)
    (he : e ∈ s.survivors) : words.length ≤ e.levels.length := by
  apply Nat.le_of_not_lt
  intro hlt
  have hindex := index_of_scan h hv
  have hword : words[e.levels.length]? = some words[e.levels.length] :=
    List.getElem?_eq_getElem hlt
  have hfits := ((mem_of_scan h he).2 _ _ hword (by omega)).1
  have hnone : e.level? (0 + e.levels.length) = none :=
    List.getElem?_eq_none (by omega)
  apply hfits
  rw [Element.grade, hnone]

-- ============================================================================
-- Where a command may end
-- ============================================================================

theorem mandatory_le_length (e : Element) : e.mandatory ≤ e.levels.length :=
  (List.takeWhile_sublist _).length_le

/-- The command is left, and none of its mandatory words is missing where the
    reading stopped. -/
def Scan.MayEnd (s : Scan) (e : Element) : Prop :=
  e ∈ s.survivors ∧ (s.atVararg = true ∨ e.mandatory ≤ s.index)

/-- Where some command may end, at most the choice between several is open. -/
theorem Scan.MayEnd.select (h : s.MayEnd e) :
    s.select = .error .ambiguous ∨ ∃ e', s.select = .ok e' := by
  have hmem : e ∈ s.survivors.filter fun e => s.atVararg || decide (e.mandatory ≤ s.index) := by
    rw [List.mem_filter]
    exact ⟨h.1, by simpa using h.2⟩
  unfold Scan.select
  generalize s.survivors.filter (fun e => s.atVararg || decide (e.mandatory ≤ s.index)) = left
    at hmem ⊢
  rcases left with _ | ⟨e', _ | ⟨e'', rest⟩⟩
  · cases hmem
  · exact .inr ⟨e', rfl⟩
  · exact .inl rfl

/-- Words with which some command may end are neither unknown nor too few. -/
theorem resolve_of_mayEnd {most : Nat} (hscan : scan .any 0 elements words = .ok s)
    (hend : s.MayEnd e) :
    resolve elements words false most ≠ .error .noMatch ∧
      resolve elements words false most ≠ .error .incomplete := by
  rw [resolve_eq, show threshold false = .any from rfl, hscan]
  dsimp only
  rcases hend.select with hselect | ⟨e', hselect⟩
  · rw [hselect]
    simp
  · rw [hselect]
    dsimp only
    split_ifs <;> simp

/-- Where help tells the end of a command, the words and the one under the cursor
    are read to where some command may end. -/
theorem exists_mayEnd_of_describe {line : PartialLine} {items : List HelpItem}
    (h : describe elements line = .ok items) (hend : .endOfCommand ∈ items) :
    ∃ s e, scan .any 0 elements (line.words ++ line.current.toList) = .ok s ∧ s.MayEnd e := by
  rw [describe_eq] at h
  cases hscan : scan .any 0 elements line.words with
  | error e =>
    rw [hscan] at h
    cases h
  | ok s =>
    rw [hscan] at h
    dsimp only at h
    split_ifs at h with hv
    · obtain ⟨e, he⟩ := exists_survivor_of_atVararg hscan hv
      exact ⟨s, e, scan_append_of_atVararg hscan hv _, he, .inl hv⟩
    · rw [Bool.not_eq_true] at hv
      obtain ⟨-, rfl⟩ := offered_eq_ok_iff.1 h
      obtain ⟨e, he, hitem⟩ := List.mem_flatMap.1 (mem_of_mem_distinctBy hend)
      obtain ⟨-, hcurrent, hlength⟩ := endOfCommand_mem_helpOf_iff.1 hitem
      rw [hcurrent] at he ⊢
      have hindex := index_of_scan hscan hv
      have hmandatory := mandatory_le_length e
      have hwords : line.index = line.words.length := rfl
      refine ⟨s, e, ?_, he, .inr (by omega)⟩
      rw [Option.toList_none, List.append_nil]
      exact hscan

/-- Help tells the end of a command behind free text, and behind the last level of a
    command that is shown. -/
theorem endOfCommand_of_scan {line : PartialLine} (hcurrent : line.current = none)
    (hscan : scan .any 0 elements line.words = .ok s) (he : e ∈ s.survivors)
    (htyped : s.atVararg = true ∨ e.isVisible = true ∧ e.levels.length ≤ line.words.length) :
    ∃ items, describe elements line = .ok items ∧
      ∃ item ∈ items, item.text = endOfCommandText := by
  rw [describe_eq, hscan]
  dsimp only
  cases hv : s.atVararg with
  | true =>
    have hlast : HelpItem.endOfCommand ∈ helpAfterVararg s.survivors :=
      List.mem_append_right _ (List.mem_singleton_self _)
    exact ⟨_, rfl, exists_mem_distinctBy HelpItem.text hlast⟩
  | false =>
    obtain ⟨hvisible, hle⟩ : e.isVisible = true ∧ e.levels.length ≤ line.words.length := by
      simpa [hv] using htyped
    have hlength : line.index = e.levels.length :=
      Nat.le_antisymm (length_le_of_scan hscan hv he) hle
    have hlast : HelpItem.endOfCommand ∈
        (narrowTo line.current line.index s.survivors).flatMap (helpOf line.index line.current) := by
      rw [hcurrent]
      exact List.mem_flatMap.2 ⟨e, he, endOfCommand_mem_helpOf_iff.2 ⟨hvisible, rfl, hlength⟩⟩
    obtain ⟨item, hitem, htext⟩ := exists_mem_distinctBy HelpItem.text hlast
    exact ⟨_, offered_eq_ok_iff.2 ⟨List.ne_nil_of_mem hitem, rfl⟩, item, hitem, htext⟩

-- ============================================================================
-- Help and resolving
-- ============================================================================

/-- Where help tells the end of a command, the words and the one under the cursor are
    neither unknown nor too few. Where the words are resolved to a shown command with
    all its levels typed, or free text stopped their reading, help tells the end of a
    command, or offers a token that is written like it in its place. -/
theorem endOfCommand_offered (elements : List Element) (line : PartialLine) (most : Nat) :
    (∀ items, describe elements line = .ok items → .endOfCommand ∈ items →
      resolve elements (line.words ++ line.current.toList) false most ≠ .error .noMatch ∧
        resolve elements (line.words ++ line.current.toList) false most ≠ .error .incomplete) ∧
    ∀ r, line.current = none → resolve elements line.words false most = .ok r →
      ((r.element.isVisible = true ∧ r.element.levels.length = line.words.length) ∨
        ∃ s, scan .any 0 elements line.words = .ok s ∧ s.atVararg = true) →
      ∃ items, describe elements line = .ok items ∧
        (.endOfCommand ∈ items ∨ ∃ a, .token a ∈ items ∧ a.text = endOfCommandText) := by
  constructor
  · intro items hdescribe hend
    obtain ⟨s, e, hscan, hmayEnd⟩ := exists_mayEnd_of_describe hdescribe hend
    exact resolve_of_mayEnd hscan hmayEnd
  · intro r hcurrent hresolve htyped
    obtain ⟨s, hscan, hselect, -⟩ := exists_scan_of_resolve hresolve
    have hleft : r.element ∈ s.survivors := (mem_of_select hselect).1
    have hstop : s.atVararg = true ∨
        r.element.isVisible = true ∧ r.element.levels.length ≤ line.words.length := by
      rcases htyped with ⟨hvisible, hlength⟩ | ⟨s', hscan', hv⟩
      · exact .inr ⟨hvisible, Nat.le_of_eq hlength⟩
      · obtain rfl : s' = s := Except.ok.inj (hscan'.symm.trans hscan)
        exact .inl hv
    obtain ⟨items, hdescribe, item, hitem, htext⟩ :=
      endOfCommand_of_scan hcurrent hscan hleft hstop
    refine ⟨items, hdescribe, ?_⟩
    cases item with
    | endOfCommand => exact .inl hitem
    | token a => exact .inr ⟨a, hitem, htext⟩

/-- Two commands that begin alike, one of which goes on with a number in brackets, and
    one of free text. -/
def statusCommands : List Element :=
  [.ofTexts [["show"], ["bts"], ["[<0-255>]"]], .ofTexts [["show"], ["bts"]],
    .ofTexts [["echo"], [".MESSAGE"]]]

/-- Behind `show bts` help tells the end of a command, though either may be meant;
    behind `show bts 3` and behind `echo done` one command is meant. -/
theorem endOfCommand_offered_status :
    (∃ items, describe statusCommands ⟨["show", "bts"], none⟩ = .ok items ∧
      .endOfCommand ∈ items ∧
      resolve statusCommands ["show", "bts"] false 256 ≠ .error .noMatch ∧
      resolve statusCommands ["show", "bts"] false 256 ≠ .error .incomplete) ∧
    (∃ r, resolve statusCommands ["show", "bts", "3"] false 256 = .ok r ∧
      r.element.isVisible = true ∧ r.element.levels.length = 3 ∧
      ∃ items, describe statusCommands ⟨["show", "bts", "3"], none⟩ = .ok items ∧
        (.endOfCommand ∈ items ∨ ∃ a, .token a ∈ items ∧ a.text = endOfCommandText)) ∧
    ∃ r s, resolve statusCommands ["echo", "done"] false 256 = .ok r ∧
      scan .any 0 statusCommands ["echo", "done"] = .ok s ∧ s.atVararg = true ∧
      ∃ items, describe statusCommands ⟨["echo", "done"], none⟩ = .ok items ∧
        (.endOfCommand ∈ items ∨ ∃ a, .token a ∈ items ∧ a.text = endOfCommandText) := by
  refine ⟨?_, ?_, ?_⟩
  · have hdescribe : describe statusCommands ⟨["show", "bts"], none⟩ =
        .ok [.token ⟨.ofText "[<0-255>]", ""⟩, .endOfCommand] := by decide +kernel
    have hend : HelpItem.endOfCommand ∈
        [HelpItem.token ⟨.ofText "[<0-255>]", ""⟩, .endOfCommand] := by simp
    exact ⟨_, hdescribe, hend, (endOfCommand_offered _ _ 256).1 _ hdescribe hend⟩
  · have hresolve : resolve statusCommands ["show", "bts", "3"] false 256 =
        .ok ⟨.ofTexts [["show"], ["bts"], ["[<0-255>]"]], ["3"]⟩ := by decide +kernel
    exact ⟨_, hresolve, rfl, rfl,
      (endOfCommand_offered _ ⟨_, none⟩ 256).2 _ rfl hresolve (.inl ⟨rfl, rfl⟩)⟩
  · have hresolve : resolve statusCommands ["echo", "done"] false 256 =
        .ok ⟨.ofTexts [["echo"], [".MESSAGE"]], ["done"]⟩ := by decide +kernel
    have hscan : scan .any 0 statusCommands ["echo", "done"] =
        .ok ⟨[.ofTexts [["echo"], [".MESSAGE"]]], 1, true⟩ := by decide +kernel
    exact ⟨_, _, hresolve, hscan, rfl,
      (endOfCommand_offered _ ⟨_, none⟩ 256).2 _ rfl hresolve (.inr ⟨_, hscan, rfl⟩)⟩

/-- A token written like the end of a command is offered in its place: behind `foo`,
    of the commands `foo <cr>` and `foo`, the token is all that help has. -/
theorem not_forall_endOfCommand_mem :
    (∀ e ∈ [Element.ofTexts [["foo"], ["<cr>"]], .ofTexts [["foo"]]], e.IsCompiled) ∧
      ¬ ∀ (elements : List Element) (line : PartialLine) (most : Nat) (r : Resolved),
        (∀ e ∈ elements, e.IsCompiled) → line.current = none →
        resolve elements line.words false most = .ok r → r.element.isVisible = true →
        r.element.levels.length = line.words.length →
        ∃ items, describe elements line = .ok items ∧ .endOfCommand ∈ items := by
  have hcompiled : ∀ e ∈ [Element.ofTexts [["foo"], ["<cr>"]], .ofTexts [["foo"]]],
      e.IsCompiled := by
    intro e he
    rw [List.mem_cons, List.mem_singleton] at he
    rcases he with rfl | rfl <;> exact Element.isCompiled_ofTexts _
  refine ⟨hcompiled, fun hall => ?_⟩
  have hresolve : resolve [.ofTexts [["foo"], ["<cr>"]], .ofTexts [["foo"]]] ["foo"] false 256 =
      .ok ⟨.ofTexts [["foo"]], []⟩ := by decide +kernel
  have hdescribe : describe [.ofTexts [["foo"], ["<cr>"]], .ofTexts [["foo"]]] ⟨["foo"], none⟩ =
      .ok [.token ⟨.ofText "<cr>", ""⟩] := by decide +kernel
  obtain ⟨items, hitems, hend⟩ := hall _ ⟨["foo"], none⟩ 256 _ hcompiled rfl hresolve rfl rfl
  obtain rfl := Except.ok.inj (hdescribe.symm.trans hitems)
  rw [List.mem_singleton] at hend
  cases hend

end RouterCli
