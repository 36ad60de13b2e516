import RouterCli.Application.Scripted
import RouterCli.Files.Tree
import RouterCli.NodeFamily
import RouterCli.Proofs.Console.Levels

/-!
  RouterCli.Proofs.Console.Shortcut

  A line whose first word is `do` is run at the privileged commands and leaves the
  session at its node, with the levels it had (`Program.execute_shortcut`). At that
  node no command of the library leaves the session's place
  (`Program.runBuiltin_keepsPlace_of_enable`). A command of the application may give
  the session another object to configure, and that one stays behind the line.
-/

namespace RouterCli

namespace Program

open Session

variable {σ κ φ : Type}

variable [FileStore φ]

-- ============================================================================
-- Lines at the privileged commands
-- ============================================================================

/-- At the privileged commands the commands of the library that go up do not. -/
theorem runBuiltin_keepsPlace_of_enable (p : Program σ κ) (command : Builtin)
    (args : List String) {c : Console σ κ φ} (hnode : c.session.node = .enable) :
    c.session.KeepsPlace (p.runBuiltin command args c).2.session := by
  by_cases hexit : command = .exit
  · have hcloses : p.exit c = c.mapSession (·.close) := by
      unfold exit
      rw [hnode]
      rfl
    rw [hexit]
    show c.session.KeepsPlace (p.exit c).session
    rw [hcloses]
    exact ⟨rfl, rfl, rfl, rfl⟩
  · by_cases hleave : command = .leave
    · have hstays : p.leaveConfig c = c := by
        unfold leaveConfig
        rw [hnode]
        exact if_pos (Nat.le_refl _)
      rw [hleave]
      show c.session.KeepsPlace (p.leaveConfig c).session
      rw [hstays]
      exact .refl _
    · exact p.runBuiltin_keepsPlace hexit hleave args c

/-- The words mean a command of the application that is carried out here. -/
def Calls (p : Program σ κ) (node : NodeId) (words : List String) (found : Resolved) : Prop :=
  resolve (p.registry.elements node) words false p.limits.arguments = .ok found ∧
    found.element.spec.daemon = 0 ∧ ∃ key, found.element.spec.action = .application key

omit [FileStore φ] in
theorem Calls.unique {p : Program σ κ} {node : NodeId} {words : List String}
    {found found' : Resolved} (h : p.Calls node words found) (h' : p.Calls node words found') :
    found = found' :=
  Except.ok.inj (h.1.symm.trans h'.1)

/-- A line run at the privileged commands keeps the session's place, but for what a
    command of the application does. -/
theorem dispatch_of_enable (p : Program σ κ) (words : List String) {c : Console σ κ φ}
    (hnode : c.session.node = .enable) :
    (c.session.KeepsPlace (p.dispatch words false c).2.session ∧
        ∀ found, ¬ p.Calls .enable words found) ∨
      ∃ found, p.Calls .enable words found ∧
        (p.application.execute found.element.spec found.arguments c.app
          c.session).2.2.KeepsPlace (p.dispatch words false c).2.session := by
  have hcases := p.dispatch_cases words false c
  rw [hnode] at hcases
  rcases hcases with ⟨e, hresolve, hrun⟩ | ⟨found, hresolve, ⟨hdaemon, hrun⟩ | ⟨hdaemon, hrun⟩⟩
  · rw [hrun]
    refine .inl ⟨.refl _, ?_⟩
    rintro found ⟨hfound, -⟩
    rw [hresolve] at hfound
    cases hfound
  · rw [hrun]
    refine .inl ⟨.refl _, ?_⟩
    rintro found' ⟨hfound', hdaemon', -⟩
    obtain rfl : found' = found := Except.ok.inj (hfound'.symm.trans hresolve)
    exact hdaemon hdaemon'
  · have hclose := closeIfFatal_keepsPlace found (p.perform found c).1 (p.perform found c).2
    rw [hrun]
    cases haction : found.element.spec.action with
    | builtin command =>
      have hkeeps := p.runBuiltin_keepsPlace_of_enable command found.arguments hnode
      rw [← p.perform_of_builtin c haction] at hkeeps
      refine .inl ⟨hkeeps.trans hclose, ?_⟩
      rintro found' ⟨hfound', -, key, haction'⟩
      obtain rfl : found' = found := Except.ok.inj (hfound'.symm.trans hresolve)
      rw [haction] at haction'
      cases haction'
    | application key =>
      refine .inr ⟨found, ⟨hresolve, hdaemon, key, haction⟩, ?_⟩
      unfold perform at hclose ⊢
      rw [haction] at hclose ⊢
      exact hclose

-- ============================================================================
-- The shortcut
-- ============================================================================

/-- The words behind `do` mean a command of the application that leaves the session
    with another object than it came with. -/
def ChangesContext (p : Program σ κ) (line : String) (c : Console σ κ φ) : Prop :=
  ∃ found, p.Calls .enable (Line.parse line).words.tail found ∧
    (p.application.execute found.element.spec found.arguments c.app
      (c.session.setNode .enable)).2.2.context ≠ c.session.context

/-- Behind a line that begins with `do` the session is at its node with its levels,
    whatever was run and however it came out, and configures the object it did unless
    a command of the application has given it another. -/
theorem execute_shortcut (p : Program σ κ) (hkeeps : p.application.KeepsLevels) {line : String}
    {c : Console σ κ φ} (hshortcut : isShortcut c.session.node (Line.parse line).first? = true) :
    (p.execute line c).2.session.node = c.session.node ∧
      (p.execute line c).2.session.parents = c.session.parents ∧
      ((p.execute line c).2.session.context = c.session.context ↔
        ¬ p.ChangesContext line c) := by
  have hnode : (c.mapSession (·.setNode .enable)).session.node = .enable := rfl
  rw [p.execute_of_shortcut hshortcut]
  unfold ChangesContext
  rcases p.dispatch_of_enable (Line.parse line).words.tail hnode with
    ⟨hplace, hnone⟩ | ⟨found, hcalls, hplace⟩
  · refine ⟨rfl, hplace.parents, iff_of_true hplace.context ?_⟩
    rintro ⟨found, hcalls, -⟩
    exact hnone found hcalls
  · have hlevels := (hkeeps found.element.spec found.arguments c.app
      (c.session.setNode .enable)).1
    have hcontext := hplace.context
    refine ⟨rfl, hplace.parents.trans hlevels, ?_⟩
    constructor
    · rintro hsame ⟨found', hcalls', hother⟩
      rw [hcalls'.unique hcalls] at hother
      exact hother (hcontext.symm.trans hsame)
    · intro hchanges
      apply hcontext.trans
      apply Classical.byContradiction
      intro hother
      exact hchanges ⟨found, hcalls, hother⟩

/-- A network and, among the privileged commands, one that goes to another object and
    one that goes to another node only. -/
def visitedNetwork : Program Script.State String where
  registry := ({ app := ⟨"bsc", "1.0", none⟩ : Registry }.installAll
    [.node { id := .enable, prompt := "%s# " },
      .node { id := .application 0, prompt := "%s(config-net)# " },
      .command .enable { action := .application "visit", pattern := "visit WORD", doc := "" },
      .command .enable { action := .application "tell", pattern := "tell WORD", doc := "" }]).1
  application := Script.application
    { commands :=
      [("visit", [.enter (.application 1)]), ("tell", [.setNode .config, .printArguments])] }

/-- A session that configures the network it has entered from the global
    configuration. -/
def networkConsole : Console Script.State String FileTree where
  host := {}
  app := []
  world := { files := ⟨[]⟩, salts := { draw := fun _ => none } }
  session :=
    { node := .application 0, context := some "net",
      parents := [{ node := .config, context := none, indent := some "" }] }

theorem keepsLevels_visitedNetwork : visitedNetwork.application.KeepsLevels := by
  intro spec args app s
  simp only [visitedNetwork, Script.application, List.lookup_cons, List.lookup_nil]
  cases spec.id == "visit" <;> cases spec.id == "tell" <;> exact ⟨rfl, rfl⟩

/-- Both commands go elsewhere; behind them the session is at the network with its
    level, and one of them has left its own object there. -/
theorem execute_shortcut_visitedNetwork :
    (visitedNetwork.execute "do tell other" networkConsole).2.session.context = some "net" ∧
    (visitedNetwork.execute "do visit other" networkConsole).2.session.context =
      some "other" ∧
    ∀ line ∈ ["do tell other", "do visit other"],
      (visitedNetwork.execute line networkConsole).2.session.node = .application 0 ∧
      (visitedNetwork.execute line networkConsole).2.session.parents =
        networkConsole.session.parents ∧
      ((visitedNetwork.execute line networkConsole).2.session.context = some "net" ↔
        ¬ visitedNetwork.ChangesContext line networkConsole) := by
  refine ⟨by decide +kernel, by decide +kernel, ?_⟩
  intro line hline
  have hshortcut : isShortcut (.application 0) (Line.parse line).first? = true := by
    revert line
    decide +kernel
  exact execute_shortcut visitedNetwork keepsLevels_visitedNetwork hshortcut

/-- The object that a command behind `do` goes to stays the session's. -/
theorem not_forall_place_eq :
    ¬ ∀ (p : Program Script.State String) (line : String)
      (c : Console Script.State String FileTree), p.application.KeepsLevels →
      isShortcut c.session.node (Line.parse line).first? = true →
      (p.execute line c).2.session.node = c.session.node ∧
        (p.execute line c).2.session.context = c.session.context ∧
        (p.execute line c).2.session.parents = c.session.parents := by
  intro h
  have hplace := h visitedNetwork "do visit other" networkConsole keepsLevels_visitedNetwork
    (by decide +kernel)
  have hcontext : (visitedNetwork.execute "do visit other" networkConsole).2.session.context =
      some "other" := by
    decide +kernel
  rw [hcontext] at hplace
  exact absurd hplace.2.1 (by decide)

end Program

end RouterCli
