import RouterCli.Command.Standard
import RouterCli.Console.Basic
import RouterCli.Proofs.Command.Installed
import RouterCli.Proofs.Matching.Plain
import RouterCli.Proofs.Matching.Strict

/-!
  RouterCli.Proofs.Command.Terminal

  The commands of a terminal as lines are resolved among them. Their patterns
  are read once (`terminal_table`); what a line with other words in it means is
  told from there.
-/

namespace RouterCli

/-- The registry of a terminal without an application. -/
def terminalRegistry (app : AppInfo) : Registry :=
  (Registry.installAll { app } (Standard.standard true)).1

namespace Standard

open Registry

-- ============================================================================
-- The commands of a node
-- ============================================================================

/-- The commands of a node without help texts. -/
def plainAt (n : NodeId) : List Element :=
  (specsAt n (standard true)).filterMap plainOf

/-- The pattern of an installation is well-formed. -/
def compiles : Installation → Bool
  | .node _ => true
  | .command _ spec => (plainOf spec).isSome

/-- Words at the global configuration mean a command of the library. -/
def Means (strict : Bool) (words : List String) (command : Builtin) (args : List String) : Prop :=
  (resolve (plainAt .config) words strict Limits.standard.arguments).toOption.map
    (fun r => (r.element.spec.action, r.element.spec.daemon, r.arguments)) =
      some (.builtin command, 0, args)

instance (strict : Bool) (words : List String) (command : Builtin) (args : List String) :
    Decidable (Means strict words command args) :=
  inferInstanceAs (Decidable (_ = _))

/-- A line of a configuration text that begins so may mean these commands. -/
def Begins (words : List String) (specs : List CommandSpec) : Prop :=
  Candidates.advanceAll .exact 0 (plainAt .config) words = some (specs.filterMap plainOf)

instance (words : List String) (specs : List CommandSpec) : Decidable (Begins words specs) :=
  inferInstanceAs (Decidable (_ = _))

/-- Lines of a configuration and what they mean. -/
def fixedLines : List (List String × Builtin × List String) :=
  [(["log", "stdout"], .logStdout, []), (["log", "record-priority"], .recordPriority, []),
    (["service", "password-encryption"], .encryption, []),
    (["no", "banner", "motd"], .noBanner, [])] ++
  Severity.all.flatMap fun s =>
    [(["log", "trap", s.name], .logTrap, [s.name]),
      (["log", "stdout", s.name], .logStdout, [s.name])]

/-- Beginnings of lines of a configuration and which commands they leave. -/
def beginnings : List (List String × List CommandSpec) :=
  [(["hostname"], [hostname]),
    (["password"], [storedPassword, password]),
    (["password", "8"], [storedPassword]),
    (["enable", "password"], [storedEnablePassword, enablePassword]),
    (["enable", "password", "8"], [storedEnablePassword]),
    (["log", "file"], [logFile, logFileLevel]),
    (["service", "terminal-length"], [serviceTerminalLength]),
    (["banner", "motd", "file"], [bannerFile])]

/-- All patterns are well-formed, and the lines mean what they should. -/
theorem terminal_table :
    (∀ step ∈ standard true, compiles step) ∧
      (∀ line ∈ fixedLines, Means true line.1 line.2.1 line.2.2) ∧
      ∀ beginning ∈ beginnings, Begins beginning.1 beginning.2 := by
  decide +kernel

theorem installable_standard : Installable [] [] (standard true) := by
  decide +kernel

theorem elements_terminalRegistry (app : AppInfo) (n : NodeId) :
    (terminalRegistry app).elements n = compiled (specsAt n (standard true)) := by
  have hcompile : ∀ n spec, .command n spec ∈ standard true →
      ∃ e, Element.ofSpec spec = .ok e := by
    intro n spec hmem
    have hplain := terminal_table.1 _ hmem
    rw [compiles, plainOf_eq, Option.isSome_map] at hplain
    cases he : Element.ofSpec spec with
    | error defect => simp [he, Except.toOption] at hplain
    | ok e => exact ⟨e, rfl⟩
  have hok : (Registry.installAll { app } (standard true)).2 = .ok () :=
    installAll_of_installable installable_standard hcompile (.empty app)
  obtain ⟨done, -, hall, helements⟩ := elements_installAll { app } (standard true)
  rw [terminalRegistry, helements, hall hok]
  simp [elements, node?]

theorem map_plain_elements (app : AppInfo) (n : NodeId) :
    ((terminalRegistry app).elements n).map Element.plain = plainAt n := by
  rw [elements_terminalRegistry, compiled, List.map_filterMap, plainAt]
  congr 1
  funext spec
  rw [plainOf_eq]

/-- Lines are resolved at a node as among its commands without help texts. -/
theorem resolve_plainAt {app : AppInfo} {n : NodeId} {words : List String} {strict : Bool}
    {most : Nat} {r : Resolved}
    (h : resolve ((terminalRegistry app).elements n) words strict most = .ok r) :
    resolve (plainAt n) words strict most = .ok ⟨r.element.plain, r.arguments⟩ := by
  rw [← map_plain_elements app, resolve_map_plain, h]
  rfl

theorem exists_spec_of_mem_plainAt {n : NodeId} {e : Element} (h : e ∈ plainAt n) :
    ∃ spec, .command n spec ∈ standard true ∧ plainOf spec = some e := by
  obtain ⟨spec, hspec, he⟩ := List.mem_filterMap.1 h
  refine ⟨spec, ?_, he⟩
  obtain ⟨step, hstep, hsome⟩ := List.mem_filterMap.1 hspec
  cases step with
  | node d => cases hsome
  | command id spec' =>
    dsimp only at hsome
    split at hsome
    · rename_i hid
      cases hsome
      rwa [hid] at hstep
    · cases hsome

end Standard

end RouterCli
