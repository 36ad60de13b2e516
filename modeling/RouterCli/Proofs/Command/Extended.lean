import RouterCli.Command.Standard
import RouterCli.Proofs.Command.Lineage

/-!
  RouterCli.Proofs.Command.Extended

  The standard set for terminals with what an application adds to it. Every
  command of a node was installed there by some call
  (`exists_command_of_mem_build`), so what a user can run before any password is
  a short list of the library's commands and whatever the application carries out
  itself (`IsExtended.action_of_mem_view`).
-/

namespace RouterCli.Registry

-- ============================================================================
-- Where commands come from
-- ============================================================================

theorem exists_command_of_mem_edit {r : Registry} {call : Edit} {n : NodeId} {e : Element}
    (he : e ∈ (r.edit call).elements n) :
    (∃ older ∈ r.elements n, older.spec = e.spec) ∨
      ∃ series, call = .install series ∧ .command n e.spec ∈ series := by
  cases call with
  | install series =>
    obtain ⟨done, hprefix, -, helements⟩ := r.elements_installAll series
    rw [edit, helements n] at he
    rcases List.mem_append.1 he with he | he
    · exact .inl ⟨e, he, rfl⟩
    · obtain ⟨spec, hspec, hcompiled⟩ := List.mem_filterMap.1 he
      obtain ⟨step, hstep, hcommand⟩ := List.mem_filterMap.1 hspec
      have hof : Element.ofSpec spec = .ok e := by
        cases hof : Element.ofSpec spec with
        | error defect => simp [hof, Except.toOption] at hcompiled
        | ok e' =>
          rw [hof] at hcompiled
          exact congrArg Except.ok (Option.some.inj hcompiled)
      refine .inr ⟨series, rfl, hprefix.subset ?_⟩
      rw [Element.spec_of_ofSpec hof]
      cases step with
      | node d => cases hcommand
      | command id spec' =>
        dsimp only at hcommand
        split_ifs at hcommand with hid
        cases hcommand
        rwa [← hid]
  | sort =>
    rw [edit, elements_sort] at he
    obtain ⟨older, holder, rfl⟩ := List.mem_map.1 he
    exact .inl ⟨older, List.mem_mergeSort.1 holder, rfl⟩

/-- A command of a node was installed there by one of the calls. -/
theorem exists_command_of_mem_build {app : AppInfo} {edits : List Edit} {n : NodeId} {e : Element}
    (he : e ∈ (build app edits).elements n) :
    ∃ series, .install series ∈ edits ∧ .command n e.spec ∈ series := by
  have hrun : ∀ (edits : List Edit) (r : Registry) (e : Element),
      e ∈ (edits.foldl edit r).elements n →
      (∃ older ∈ r.elements n, older.spec = e.spec) ∨
        ∃ series, .install series ∈ edits ∧ .command n e.spec ∈ series := by
    intro edits
    induction edits with
    | nil => exact fun r e he => .inl ⟨e, he, rfl⟩
    | cons call rest ih =>
      intro r e he
      rcases ih (r.edit call) e he with ⟨older, holder, hspec⟩ | ⟨series, hcall, hmem⟩
      · rw [← hspec]
        rcases exists_command_of_mem_edit holder with hfirst | ⟨series, rfl, hmem⟩
        · exact .inl hfirst
        · exact .inr ⟨series, List.mem_cons_self, hmem⟩
      · exact .inr ⟨series, List.mem_cons_of_mem call hcall, hmem⟩
  rcases hrun edits { app } e he with ⟨older, holder, -⟩ | hfound
  · cases holder
  · exact hfound

-- ============================================================================
-- The standard set and an application
-- ============================================================================

/-- What an application installs: nodes, commands that it carries out itself, and
    the library's defaults at a node. -/
def Installation.IsApplication : Installation → Prop
  | .node _ => True
  | .command id spec =>
    (∃ key, spec.action = .application key) ∨
      Installation.command id spec ∈ Standard.interactiveDefaults id

/-- A registry that was built of the standard set for terminals and of what an
    application installs, by any calls in any order. -/
def IsExtended (r : Registry) : Prop :=
  ∃ app edits, r = build app edits ∧
    ∀ series, .install series ∈ edits →
      ∀ step ∈ series, step ∈ Standard.standard true ∨ step.IsApplication

/-- The commands of the library that may stand at the node without privileges. -/
def viewBuiltins : List Builtin :=
  [.showVersion, .list, .exit, .help, .enable, .terminalLength, .noTerminalLength, .echo,
    .showLogging, .writeTerminal, .writeFile]

/-- What is carried out at the node without privileges: one of a few commands of
    the library, or one of the application's. -/
theorem IsExtended.action_of_mem_view {r : Registry} (h : r.IsExtended) {e : Element}
    (he : e ∈ r.elements .view) :
    (∃ key, e.spec.action = .application key) ∨
      ∃ command ∈ viewBuiltins, e.spec.action = .builtin command := by
  obtain ⟨app, edits, rfl, hseries⟩ := h
  obtain ⟨series, hcall, hmem⟩ := exists_command_of_mem_build he
  have htable : ∀ steps : List Installation,
      ((specsAt .view steps).all fun spec =>
        viewBuiltins.any fun command => spec.action == .builtin command) = true →
      .command .view e.spec ∈ steps →
      ∃ command ∈ viewBuiltins, e.spec.action = .builtin command := by
    intro steps hall hstep
    have hspec : e.spec ∈ specsAt .view steps :=
      List.mem_filterMap.2 ⟨_, hstep, by simp⟩
    obtain ⟨command, hcommand, haction⟩ := List.any_eq_true.1 (List.all_eq_true.1 hall _ hspec)
    exact ⟨command, hcommand, by simpa using haction⟩
  rcases hseries series hcall _ hmem with hstandard | happlication | hdefaults
  · exact .inr (htable _ (by decide +kernel) hstandard)
  · exact .inl happlication
  · exact .inr (htable _ (by decide +kernel) hdefaults)

end RouterCli.Registry
