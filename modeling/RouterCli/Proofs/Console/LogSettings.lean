import RouterCli.Proofs.Console.Refusal
import RouterCli.Proofs.Console.Secrets
import RouterCli.Proofs.Files.Disk
import RouterCli.Proofs.Log.Applied

/-!
  RouterCli.Proofs.Console.LogSettings

  The log settings that the host keeps are those in force in the process, whatever
  lines are run and whichever log files cannot be opened
  (`Program.runTurns_logging`). A line puts settings in force and then keeps them with
  the host, or it leaves both as they are (`Console.LogChange`); only the commands
  for the log do the former, and a file that cannot be opened makes them do the latter.
-/

namespace RouterCli

open RouterCli.Path

-- ============================================================================
-- Passwords
-- ============================================================================

section

variable {φ : Type}

@[simp] theorem World.logger_encrypt (w : World φ) (password : String) :
    (w.encrypt password).2.logger = w.logger := rfl

@[simp] theorem Secret.logger_encrypt (s : Secret) (w : World φ) :
    (s.encrypt w).2.logger = w.logger := by
  cases s with
  | plain text => exact w.logger_encrypt text
  | encrypted stored => rfl

namespace Host

theorem logger_secretFor (h : Host) (text : String) (w : World φ) :
    (h.secretFor text w).2.logger = w.logger := by
  unfold secretFor
  split
  · exact Secret.logger_encrypt _ w
  · rfl

theorem logger_encryptSecret (s : Option Secret) (w : World φ) :
    (encryptSecret s w).2.logger = w.logger := by
  cases s with
  | none => rfl
  | some secret => exact secret.logger_encrypt w

theorem logger_enableEncryption (h : Host) (w : World φ) :
    (h.enableEncryption w).2.logger = w.logger := by
  unfold enableEncryption
  split
  · rfl
  · have hpassword := logger_encryptSecret h.password w
    split
    · rename_i heq
      rwa [heq] at hpassword
    · rename_i password w₁ heq
      rw [heq] at hpassword
      have henable := logger_encryptSecret h.enable w₁
      split <;> rename_i heq' <;> rw [heq'] at henable <;> exact henable.trans hpassword

end Host

end

-- ============================================================================
-- Commands
-- ============================================================================

namespace Console

variable {σ κ φ : Type} [FileStore φ]

/-- What a line may make of the log: the settings with the host and the log of the
    process stay, or the line succeeds, and the settings with the host are those that
    it put in force. -/
inductive LogChange (c : Console σ κ φ) : Outcome × Console σ κ φ → Prop where
  | kept {outcome : Outcome} {c' : Console σ κ φ} (hhost : c'.host.logging = c.host.logging)
      (hlogger : c'.world.logger = c.world.logger) : LogChange c (outcome, c')
  | applied {c' : Console σ κ φ} {world : World φ}
      (happly : c.world.applyLog c'.host.logging = .ok world)
      (hlogger : c'.world.logger = world.logger) : LogChange c (.ok .success, c')

omit [FileStore φ] in
theorem logger_typedSecret (c : Console σ κ φ) (args : List String) :
    (c.typedSecret args).2.world.logger = c.world.logger := by
  unfold typedSecret
  split
  · split <;> rfl
  · dsimp only
    split
    · rfl
    · have hsecret := c.host.logger_secretFor (args.headD "") c.world
      split <;> exact hsecret

theorem setSecret_logChange (c : Console σ κ φ) (args : List String)
    {keep : Secret → Host → Host} (hkeep : ∀ secret h, (keep secret h).logging = h.logging) :
    c.LogChange (c.setSecret args keep) := by
  obtain ⟨world, hkeeps⟩ := c.typedSecret_keeps args
  have hlogger := c.logger_typedSecret args
  unfold setSecret
  generalize c.typedSecret args = typed at hkeeps hlogger ⊢
  obtain ⟨secret | complaint, c'⟩ := typed
  all_goals obtain rfl : c' = { c with world } := hkeeps
  · exact .kept (hkeep secret c.host) hlogger
  · exact .kept rfl hlogger

theorem setLength_logChange (c : Console σ κ φ) (args : List String)
    {f : Option Nat → Console σ κ φ → Console σ κ φ}
    (hf : ∀ n, (f n c).host.logging = c.host.logging ∧ (f n c).world.logger = c.world.logger) :
    c.LogChange (c.setLength args f) := by
  unfold setLength
  split
  · exact .kept (hf _).1 (hf _).2
  · exact .kept rfl rfl

theorem encryptPasswords_logChange (c : Console σ κ φ) : c.LogChange c.encryptPasswords := by
  have hlogger := c.host.logger_enableEncryption c.world
  unfold encryptPasswords
  cases hencrypt : c.host.enableEncryption c.world with
  | mk result world =>
    rw [hencrypt] at hlogger
    cases result with
    | error e => exact .kept rfl hlogger
    | ok host =>
      refine .kept ?_ hlogger
      rcases Host.enableEncryption_cases hencrypt with ⟨-, rfl⟩ | ⟨_, _, _, -, -, rfl⟩ <;> rfl

/-- Settings are kept with the host only once they are in force. -/
theorem setLogging_logChange (c : Console σ κ φ) (edit : LogSettings → LogSettings) :
    c.LogChange (c.setLogging edit) := by
  unfold setLogging
  dsimp only
  split
  · rename_i world happly
    exact .applied happly rfl
  · exact .kept rfl rfl

theorem setDestination_logChange (c : Console σ κ φ) (word : Option String)
    (edit : Severity → LogSettings → LogSettings) :
    c.LogChange (c.setDestination word edit) := by
  unfold setDestination
  split
  · exact c.setLogging_logChange _
  · exact .kept rfl rfl

theorem showSaved_logChange (c : Console σ κ φ) : c.LogChange c.showSaved := by
  unfold showSaved
  dsimp only
  split <;> exact .kept rfl rfl

/-- The host keeps the log settings that are in force. -/
structure InForce (c : Console σ κ φ) : Prop where
  settings : c.host.logging = c.world.logger.settings
  isApplied : c.world.logger.IsApplied φ

theorem LogChange.inForce {c : Console σ κ φ} {result : Outcome × Console σ κ φ}
    (h : c.LogChange result) (hc : c.InForce) : result.2.InForce := by
  cases h with
  | kept hhost hlogger =>
    refine ⟨?_, hlogger ▸ hc.isApplied⟩
    rw [hhost, hlogger, hc.settings]
  | applied happly hlogger =>
    refine ⟨?_, hlogger ▸ .apply hc.isApplied happly⟩
    rw [hlogger, World.settings_applyLog happly]

theorem LogChange.kept_of_ne {c : Console σ κ φ} {result : Outcome × Console σ κ φ}
    (h : c.LogChange result) (hne : result.1 ≠ .ok .success) :
    result.2.host.logging = c.host.logging ∧ result.2.world.logger = c.world.logger := by
  cases h with
  | kept hhost hlogger => exact ⟨hhost, hlogger⟩
  | applied => exact absurd rfl hne

/-- To change the session beforehand or afterwards changes nothing for the log. -/
theorem LogChange.of_session {c c' : Console σ κ φ} {session session' : Session κ}
    {outcome : Outcome} (h : ({ c with session } : Console σ κ φ).LogChange (outcome, c')) :
    c.LogChange (outcome, { c' with session := session' }) := by
  cases h with
  | kept hhost hlogger => exact .kept hhost hlogger
  | applied happly hlogger => exact .applied happly hlogger

end Console

namespace Program

variable {σ κ φ : Type} [FileStore φ]

theorem logger_leaveConfig (p : Program σ κ) (c : Console σ κ φ) :
    (p.leaveConfig c).world.logger = c.world.logger := by
  unfold leaveConfig
  split
  · rfl
  · generalize p.climb c.app (p.ascentBound c.session) .config c.session = found
    obtain ⟨stuck, s⟩ := found
    cases stuck with
    | none => rfl
    | some node => exact c.world.logger_log _ _

omit [FileStore φ] in
theorem logger_exit (p : Program σ κ) (c : Console σ κ φ) :
    (p.exit c).world = c.world := by
  unfold exit
  split_ifs <;> rfl

theorem logger_save (p : Program σ κ) (c : Console σ κ φ) :
    (p.save c).2.world.logger = c.world.logger := by
  unfold save
  split
  · rfl
  · split
    · rfl
    · unfold saveTo
      dsimp only
      split <;> exact World.logger_log _ _ _

theorem logger_writeFile (p : Program σ κ) (c : Console σ κ φ) :
    (p.writeFile c).2.world.logger = c.world.logger := by
  have hsave := p.logger_save c
  unfold writeFile
  generalize p.save c = saved at hsave ⊢
  split <;> exact hsave

theorem runBuiltin_logChange (p : Program σ κ) (command : Builtin) (args : List String)
    (c : Console σ κ φ) : c.LogChange (p.runBuiltin command args c) := by
  cases command <;> simp only [runBuiltin]
  case exit => exact .kept (congrArg Host.logging (p.host_exit c)) (by rw [p.logger_exit])
  case leave => exact .kept (congrArg Host.logging (p.host_leaveConfig c)) (p.logger_leaveConfig c)
  case writeFile =>
    exact .kept (congrArg Host.logging (p.host_writeFile c)) (p.logger_writeFile c)
  case showStartup => exact c.showSaved_logChange
  case password | enablePassword => exact c.setSecret_logChange _ fun _ _ => rfl
  case encryption => exact c.encryptPasswords_logChange
  case noEncryption =>
    refine .kept ?_ rfl
    show c.host.disableEncryption.logging = c.host.logging
    unfold Host.disableEncryption
    split <;> rfl
  case terminalLength | serviceTerminalLength =>
    exact c.setLength_logChange _ fun _ => ⟨rfl, rfl⟩
  case logStdout | logFile => exact c.setDestination_logChange _ _
  case noLogStdout | noLogFile | noLogTrap | recordPriority | noRecordPriority =>
    exact c.setLogging_logChange _
  case hostname => split <;> exact .kept rfl rfl
  case logTrap =>
    cases args with
    | nil => exact .kept rfl rfl
    | cons word rest => exact c.setDestination_logChange _ _
  case logMessage =>
    cases args with
    | nil => exact .kept rfl rfl
    | cons word message =>
      dsimp only
      split
      · exact .kept rfl (c.world.logger_log _ _)
      · exact .kept rfl rfl
  all_goals exact .kept rfl rfl

theorem closeIfFatal_logChange {c c' : Console σ κ φ} {outcome : Outcome}
    (h : c.LogChange (outcome, c')) (found : Resolved) :
    c.LogChange (outcome, closeIfFatal found outcome c') := by
  cases h with
  | applied happly hlogger => exact .applied happly hlogger
  | kept hhost hlogger =>
    unfold closeIfFatal
    split
    · exact .kept hhost ((World.logger_log _ _ _).trans hlogger)
    · exact .kept hhost hlogger

-- ============================================================================
-- Lines
-- ============================================================================

theorem dispatch_logChange (p : Program σ κ) (words : List String) (strict : Bool)
    (c : Console σ κ φ) : c.LogChange (p.dispatch words strict c) := by
  rcases p.dispatch_cases words strict c with
    ⟨e, -, hrun⟩ | ⟨found, -, ⟨-, hrun⟩ | ⟨-, hrun⟩⟩ <;> rw [hrun]
  · exact .kept rfl rfl
  · exact .kept rfl rfl
  · refine closeIfFatal_logChange ?_ found
    unfold perform
    split
    · exact p.runBuiltin_logChange _ _ c
    · exact .kept rfl rfl

theorem run_logChange (p : Program σ κ) (strict : Bool) (line : String) (c : Console σ κ φ) :
    c.LogChange (p.run strict line c) := by
  unfold run executeStrict execute
  dsimp only
  split_ifs
  · exact .kept rfl rfl
  · exact p.dispatch_logChange _ _ c
  · exact .kept rfl rfl
  · exact .of_session (p.dispatch_logChange _ _ (c.mapSession (·.setNode .enable)))
  · exact p.dispatch_logChange _ _ c

/-- A line, and the files as it finds them: others may have changed them, so that a
    log file that could not be opened before can be opened now, or the other way
    round. -/
structure Turn (κ φ : Type) where
  entry : Entry κ
  files : φ

/-- The console as a line finds it. -/
def Turn.found (t : Turn κ φ) (c : Console σ κ φ) : Console σ κ φ :=
  { c with session := t.entry.session, world := { c.world with files := t.files } }

/-- Run a line in its session, on the files that it finds. -/
def runTurn (p : Program σ κ) (t : Turn κ φ) (c : Console σ κ φ) : Outcome × Console σ κ φ :=
  p.run t.entry.strict t.entry.line (t.found c)

/-- Run lines one after the other. -/
def runTurns (p : Program σ κ) (turns : List (Turn κ φ)) (c : Console σ κ φ) : Console σ κ φ :=
  turns.foldl (fun c t => (p.runTurn t c).2) c

theorem runTurn_logChange (p : Program σ κ) (t : Turn κ φ) (c : Console σ κ φ) :
    (t.found c).LogChange (p.runTurn t c) :=
  p.run_logChange _ _ _

theorem runTurns_inForce (p : Program σ κ) (turns : List (Turn κ φ)) {c : Console σ κ φ}
    (h : c.InForce) : (p.runTurns turns c).InForce := by
  induction turns generalizing c with
  | nil => exact h
  | cons t rest ih => exact ih ((p.runTurn_logChange t c).inForce ⟨h.settings, h.isApplied⟩)

/-- Whatever lines are run, and whichever log files can be opened at the time: the host
    keeps the settings that are in force, the open file is the one that they ask for,
    and a line that does not succeed has changed neither the settings nor the open
    file. -/
theorem runTurns_logging (p : Program σ κ) (turns : List (Turn κ φ)) {c : Console σ κ φ}
    (hlogger : c.world.logger.IsApplied φ) (hhost : c.host.logging = c.world.logger.settings) :
    let after := p.runTurns turns c
    after.host.logging = after.world.logger.settings ∧
      after.world.logger.openFile.map (components ·.path) =
        after.host.logging.file.map (components ·.path) ∧
      ∀ t : Turn κ φ, (p.runTurn t after).1 ≠ .ok .success →
        (p.runTurn t after).2.host.logging = after.host.logging ∧
          (p.runTurn t after).2.world.logger = after.world.logger := by
  intro after
  obtain ⟨hsettings, happlied⟩ : after.InForce := p.runTurns_inForce turns ⟨hhost, hlogger⟩
  clear_value after
  refine ⟨hsettings, ?_, fun t hoff => ?_⟩
  · rw [hsettings]
    exact happlied.isOpened
  · exact (p.runTurn_logChange t after).kept_of_ne hoff

/-- Commands for the log, at the global configuration. -/
def logTerminal : Program Unit String where
  registry := ({ app := ⟨"bsc", "1.0", none⟩ : Registry }.installAll
    ((.node { id := .config, prompt := "%s(config)# " } : Registry.Installation) ::
      [Standard.logStdout, Standard.logFile, Standard.noLogFile].map (.command .config))).1
  application := .none

/-- An empty disk, on which this file cannot be created. -/
def diskWithout (name : String) : Disk :=
  { Disk.empty with
    fails := fun call => if call = .create name then some .notPermitted else none
    fails_unlink := fun _ h => nomatch h }

/-- A line typed at the global configuration, while this file cannot be created. -/
def typedWithout (name line : String) : Turn String Disk :=
  ⟨typedAtConfig line, diskWithout name⟩

/-- A new host, and a new log. -/
def quietConsole : Console Unit String Disk where
  host := {}
  app := ()
  world := { files := .empty, salts := .ofBytes [] }
  session := { node := .config }

/-- The log file cannot be opened at first, and can be afterwards. Another one that
    cannot be opened leaves it open. -/
theorem runTurns_logging_logTerminal :
    let early := typedWithout "a.log" "log file a.log"
    let late := typedWithout "b.log" "log file a.log"
    let other := typedWithout "b.log" "log file b.log"
    let after := logTerminal.runTurns [early, late] quietConsole
    (logTerminal.runTurn early quietConsole).1.isRefusal ∧
      after.host.logging.file = some ⟨"a.log", .debugging⟩ ∧
      after.host.logging = after.world.logger.settings ∧
      after.world.logger.openFile.map (components ·.path) = some [.entry "a.log"] ∧
      (logTerminal.runTurn other after).1.isRefusal ∧
      (logTerminal.runTurn other after).2.host.logging.file = some ⟨"a.log", .debugging⟩ ∧
      (logTerminal.runTurn other after).2.world.logger = after.world.logger := by
  intro early late other after
  obtain ⟨hearly, hfile, hother⟩ : (logTerminal.runTurn early quietConsole).1.isRefusal ∧
      after.host.logging.file = some ⟨"a.log", .debugging⟩ ∧
      (logTerminal.runTurn other after).1.isRefusal := by
    decide +kernel
  obtain ⟨hsettings, hopened, hkept⟩ :=
    runTurns_logging logTerminal [early, late] (c := quietConsole) .new rfl
  have hoff : (logTerminal.runTurn other after).1 ≠ .ok .success := by
    intro hsuccess
    rw [hsuccess] at hother
    cases hother
  obtain ⟨hhost, hlogger⟩ := hkept other hoff
  have hpath : after.world.logger.openFile.map (components ·.path) = some [.entry "a.log"] := by
    refine hopened.trans ?_
    rw [hfile]
    decide +kernel
  exact ⟨hearly, hfile, hsettings, hpath, hother, by rw [hhost, hfile], hlogger⟩

end Program

end RouterCli
