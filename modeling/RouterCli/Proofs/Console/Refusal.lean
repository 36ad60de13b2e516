import RouterCli.Files.Tree
import RouterCli.NodeFamily
import RouterCli.Proofs.Console.Shortcut

/-!
  RouterCli.Proofs.Console.Refusal

  A command of the library is carried out, or it changes nothing. If a line that
  means one comes out with a warning or an error, or means nothing, the host and the
  application are as they were, and so is the session but for its output, whatever
  files, log and salts did meanwhile (`Program.run_of_refusal`). Each command checks
  its arguments and does what may fail before it changes anything, and no command of
  the library fails for good (`Program.runBuiltin_allOrNothing`).
-/

namespace RouterCli

/-- The line came to nothing: a complaint was printed, or there is an error. -/
def Outcome.isRefusal : Outcome → Bool
  | .ok .warning | .error _ => true
  | .ok .success | .ok .daemon => false

-- ============================================================================
-- Consoles on which nothing was changed
-- ============================================================================

namespace Console

variable {σ κ φ : Type}

/-- Something may have been printed, and the world may be another. -/
structure Untouched (c c' : Console σ κ φ) : Prop where
  host : c'.host = c.host
  app : c'.app = c.app
  session : ∃ text, c'.session = c.session.print text

theorem Untouched.refl (c : Console σ κ φ) : c.Untouched c := by
  refine ⟨rfl, rfl, "", ?_⟩
  simp [Session.print]

theorem Untouched.printLine (c : Console σ κ φ) (world : World φ) (text : String) :
    c.Untouched (({ c with world } : Console σ κ φ).printLine text) :=
  ⟨rfl, rfl, text ++ "\n", rfl⟩

/-- To go to a node for one line and back leaves the session where it was. -/
theorem Untouched.of_setNode {c c' : Console σ κ φ} {node : NodeId}
    (h : (c.mapSession (·.setNode node)).Untouched c') :
    c.Untouched (c'.mapSession (·.setNode c.session.node)) := by
  obtain ⟨hhost, happ, text, hsession⟩ := h
  refine ⟨hhost, happ, text, ?_⟩
  show c'.session.setNode c.session.node = c.session.print text
  rw [hsession]
  rfl

-- ============================================================================
-- Commands that are carried out or change nothing
-- ============================================================================

/-- A result of a command: it is carried out, or it has changed nothing and does not
    fail for good. -/
inductive AllOrNothing (c : Console σ κ φ) : Outcome × Console σ κ φ → Prop where
  | done (c' : Console σ κ φ) : AllOrNothing c (.ok .success, c')
  | nothing {outcome : Outcome} {c' : Console σ κ φ}
      (hmild : ∀ reason, outcome ≠ .error (.fatal reason)) (h : c.Untouched c') :
      AllOrNothing c (outcome, c')

namespace AllOrNothing

theorem warn (c : Console σ κ φ) (world : World φ) (complaint : String) :
    c.AllOrNothing (({ c with world } : Console σ κ φ).warn complaint) :=
  .nothing (fun _ h => nomatch h) (.printLine c world complaint)

theorem error (c : Console σ κ φ) {e : CommandError} (hmild : ∀ reason, e ≠ .fatal reason) :
    c.AllOrNothing (.error e, c) :=
  .nothing (fun reason h => hmild reason (Except.error.inj h)) (.refl c)

theorem mild {c : Console σ κ φ} {result : Outcome × Console σ κ φ} (h : c.AllOrNothing result)
    (reason : String) : result.1 ≠ .error (.fatal reason) := by
  cases h with
  | done c' => exact fun heq => nomatch heq
  | nothing hmild _ => exact hmild reason

theorem untouched {c : Console σ κ φ} {result : Outcome × Console σ κ φ}
    (h : c.AllOrNothing result) (hrefusal : result.1.isRefusal) : c.Untouched result.2 := by
  cases h with
  | done c' => exact absurd hrefusal Bool.false_ne_true
  | nothing _ huntouched => exact huntouched

end AllOrNothing

theorem setSecret_allOrNothing (c : Console σ κ φ) (args : List String)
    (keep : Secret → Host → Host) : c.AllOrNothing (c.setSecret args keep) := by
  obtain ⟨world, hkeeps⟩ := c.typedSecret_keeps args
  unfold setSecret
  generalize c.typedSecret args = typed at hkeeps ⊢
  obtain ⟨secret | complaint, c'⟩ := typed
  all_goals obtain rfl : c' = { c with world } := hkeeps
  · exact .done _
  · exact .warn c world complaint

theorem setLength_allOrNothing (c : Console σ κ φ) (args : List String)
    (f : Option Nat → Console σ κ φ → Console σ κ φ) :
    c.AllOrNothing (c.setLength args f) := by
  unfold setLength
  split
  · exact .done _
  · exact .error c (by simp)

/-- The host is another only once there are salts for both passwords. -/
theorem encryptPasswords_allOrNothing (c : Console σ κ φ) :
    c.AllOrNothing c.encryptPasswords := by
  unfold encryptPasswords
  dsimp only
  split
  · exact .done _
  · exact .warn c _ _

theorem severity_parse_mild {word : String} {e : CommandError}
    (h : Severity.parse word = .error e) (reason : String) : e ≠ .fatal reason := by
  rintro rfl
  unfold Severity.parse at h
  split at h
  · cases h
  · split at h
    · cases h
    · split at h <;> cases h

variable [FileStore φ]

theorem setLogging_allOrNothing (c : Console σ κ φ) (edit : LogSettings → LogSettings) :
    c.AllOrNothing (c.setLogging edit) := by
  unfold setLogging
  dsimp only
  split
  · exact .done _
  · exact .warn c c.world _

theorem setDestination_allOrNothing (c : Console σ κ φ) (word : Option String)
    (edit : Severity → LogSettings → LogSettings) :
    c.AllOrNothing (c.setDestination word edit) := by
  unfold setDestination
  split
  · exact c.setLogging_allOrNothing _
  · rename_i e herror
    cases word with
    | none => cases herror
    | some word => exact .error c (severity_parse_mild herror)

theorem showSaved_allOrNothing (c : Console σ κ φ) : c.AllOrNothing c.showSaved := by
  unfold showSaved
  dsimp only
  split
  · exact .done _
  · exact .warn c c.world _

end Console

namespace Program

variable {σ κ φ : Type} [FileStore φ]

theorem writeFile_allOrNothing (p : Program σ κ) (c : Console σ κ φ) :
    c.AllOrNothing (p.writeFile c) := by
  obtain ⟨world, hsave⟩ := p.save_keeps c
  unfold writeFile
  generalize p.save c = saved at hsave ⊢
  obtain ⟨result, c'⟩ := saved
  obtain rfl : c' = { c with world } := hsave
  split <;> rename_i heq <;> cases heq
  · exact .done _
  all_goals exact .warn c world _

/-- A command of the library is carried out, or it changes nothing. -/
theorem runBuiltin_allOrNothing (p : Program σ κ) (command : Builtin) (args : List String)
    (c : Console σ κ φ) : c.AllOrNothing (p.runBuiltin command args c) := by
  cases command <;> simp only [runBuiltin]
  case writeFile => exact p.writeFile_allOrNothing c
  case showStartup => exact c.showSaved_allOrNothing
  case password | enablePassword => exact c.setSecret_allOrNothing _ _
  case encryption => exact c.encryptPasswords_allOrNothing
  case terminalLength | serviceTerminalLength => exact c.setLength_allOrNothing _ _
  case logStdout | logFile => exact c.setDestination_allOrNothing _ _
  case noLogStdout | noLogFile | noLogTrap | recordPriority | noRecordPriority =>
    exact c.setLogging_allOrNothing _
  case hostname =>
    split
    · exact .done _
    · exact .warn c c.world _
  case logTrap =>
    cases args with
    | nil => exact .error c (by simp)
    | cons word rest => exact c.setDestination_allOrNothing _ _
  case logMessage =>
    cases args with
    | nil => exact .error c (by simp)
    | cons word message =>
      dsimp only
      split
      · exact .done _
      · rename_i e herror
        exact .error c (Console.severity_parse_mild herror)
  all_goals exact .done _

-- ============================================================================
-- Lines
-- ============================================================================

theorem closeIfFatal_of_mild {found : Resolved} {outcome : Outcome} {c : Console σ κ φ}
    (hmild : ∀ reason, outcome ≠ .error (.fatal reason)) : closeIfFatal found outcome c = c := by
  unfold closeIfFatal
  split
  · rename_i reason
    exact absurd rfl (hmild reason)
  · rfl

/-- No command of the library ends the session by failing. -/
theorem dispatch_of_builtin (p : Program σ κ) {words : List String} {strict : Bool}
    {c : Console σ κ φ} {found : Resolved} {command : Builtin}
    (h : resolve (p.registry.elements c.session.node) words strict p.limits.arguments = .ok found)
    (hdaemon : found.element.spec.daemon = 0)
    (haction : found.element.spec.action = .builtin command) :
    p.dispatch words strict c = p.runBuiltin command found.arguments c := by
  have hmild := (p.runBuiltin_allOrNothing command found.arguments c).mild
  rw [p.dispatch_of_found h hdaemon, p.perform_of_builtin c haction, closeIfFatal_of_mild hmild]

/-- Whatever the words mean is a command of the library. -/
def MeansLibrary (p : Program σ κ) (node : NodeId) (words : List String) (strict : Bool) : Prop :=
  ∀ found, resolve (p.registry.elements node) words strict p.limits.arguments = .ok found →
    ∃ command, found.element.spec.action = .builtin command

theorem dispatch_of_refusal (p : Program σ κ) {words : List String} {strict : Bool}
    {c : Console σ κ φ} (hlibrary : p.MeansLibrary c.session.node words strict)
    (hrefusal : (p.dispatch words strict c).1.isRefusal) :
    c.Untouched (p.dispatch words strict c).2 := by
  rcases p.dispatch_cases words strict c with
    ⟨e, -, hrun⟩ | ⟨found, hresolve, ⟨-, hrun⟩ | ⟨hdaemon, -⟩⟩
  · rw [hrun]
    exact .refl c
  · rw [hrun] at hrefusal
    exact absurd hrefusal Bool.false_ne_true
  · obtain ⟨command, haction⟩ := hlibrary found hresolve
    rw [p.dispatch_of_builtin hresolve hdaemon haction] at hrefusal ⊢
    exact (p.runBuiltin_allOrNothing command found.arguments c).untouched hrefusal

/-- Run a line, the strict way or as a typed one. -/
def run (p : Program σ κ) (strict : Bool) (line : String) (c : Console σ κ φ) :
    Outcome × Console σ κ φ :=
  if strict then p.executeStrict line c else p.execute line c

/-- Whatever the line means at the node is a command of the library. Behind `do` a
    typed line means what it means at the privileged commands. -/
structure LineMeansLibrary (p : Program σ κ) (strict : Bool) (node : NodeId) (line : Line) :
    Prop where
  behindDo : strict = false → isShortcut node line.first? = true →
    p.MeansLibrary .enable line.words.tail false
  here : strict = true ∨ isShortcut node line.first? = false →
    p.MeansLibrary node line.words strict

/-- A line that means a command of the library, or nothing, and comes out with a
    warning or an error has changed nothing on the host nor in the session, and has
    at most printed. -/
theorem run_of_refusal (p : Program σ κ) {strict : Bool} {line : String} {c : Console σ κ φ}
    (hlibrary : p.LineMeansLibrary strict c.session.node (Line.parse line))
    (hrefusal : (p.run strict line c).1.isRefusal) : c.Untouched (p.run strict line c).2 := by
  cases hblank : (Line.parse line).isEmpty with
  | true =>
    have hrun : p.run strict line c = (.ok .success, c) := by
      cases strict with
      | true => exact if_pos hblank
      | false => exact p.execute_of_blank c hblank
    rw [hrun] at hrefusal
    exact absurd hrefusal Bool.false_ne_true
  | false =>
    by_cases hplain : strict = true ∨ isShortcut c.session.node (Line.parse line).first? = false
    · have hrun : p.run strict line c = p.dispatch (Line.parse line).words strict c := by
        cases strict with
        | true => exact if_neg (Bool.eq_false_iff.1 hblank)
        | false => exact p.execute_of_plain hblank (hplain.resolve_left Bool.false_ne_true)
      rw [hrun] at hrefusal ⊢
      exact p.dispatch_of_refusal (hlibrary.here hplain) hrefusal
    · rw [not_or, Bool.not_eq_true, Bool.not_eq_false] at hplain
      obtain ⟨rfl, hdo⟩ := hplain
      have hrun : p.run false line c = p.execute line c := rfl
      rw [hrun, p.execute_of_shortcut hdo] at hrefusal ⊢
      exact .of_setNode (p.dispatch_of_refusal (hlibrary.behindDo rfl hdo) hrefusal)

/-- A network, and at the privileged commands the encryption of passwords. -/
def lockedNetwork : Program Unit String where
  registry := ({ app := ⟨"bsc", "1.0", none⟩ : Registry }.installAll
    [.node { id := .enable, prompt := "%s# " },
      .node { id := .application 0, prompt := "%s(config-net)# " },
      .command .enable
        { action := .builtin .encryption, pattern := "service password-encryption",
          doc := "" }]).1
  application := .none

/-- A session at the network, on a host with two passwords and a salt for one. -/
def lockedConsole : Console Unit String FileTree where
  host := { password := some (.plain "login"), enable := some (.plain "secret") }
  app := ()
  world := { files := ⟨[]⟩, salts := .ofBytes (List.replicate saltLength 0) }
  session := { node := .application 0, context := some "net", indent := some "" }

/-- The first password would have its salt, and the second has none: both stay as
    they are. -/
theorem run_of_refusal_lockedNetwork :
    (lockedNetwork.run false "do service password-encryption" lockedConsole).1.isRefusal ∧
    (lockedNetwork.run false "do service password-encryption"
      lockedConsole).2.world.salts.drawn = 2 ∧
    lockedConsole.Untouched
      (lockedNetwork.run false "do service password-encryption" lockedConsole).2 := by
  have hrefusal : (lockedNetwork.run false "do service password-encryption"
      lockedConsole).1.isRefusal := by
    decide +kernel
  have hmeaning : (resolve (lockedNetwork.registry.elements .enable)
      (Line.parse "do service password-encryption").words.tail false
      lockedNetwork.limits.arguments).toOption.map (·.element.spec.action) =
        some (.builtin .encryption) := by
    decide +kernel
  have hbehind : lockedNetwork.MeansLibrary .enable
      (Line.parse "do service password-encryption").words.tail false := by
    intro found hfound
    rw [hfound] at hmeaning
    exact ⟨.encryption, Option.some.inj hmeaning⟩
  have hlibrary : lockedNetwork.LineMeansLibrary false lockedConsole.session.node
      (Line.parse "do service password-encryption") :=
    ⟨fun _ _ => hbehind, fun hplain => absurd hplain (by decide +kernel)⟩
  exact ⟨hrefusal, by decide +kernel, run_of_refusal lockedNetwork hlibrary hrefusal⟩

end Program

end RouterCli
