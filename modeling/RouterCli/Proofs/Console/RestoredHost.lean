import RouterCli.Files.Tree
import RouterCli.Proofs.Console.Takes
import RouterCli.Proofs.Console.WritableHost

/-!
  RouterCli.Proofs.Console.RestoredHost

  The settings of a host that a terminal gave it come back when they are
  written down and read (`replay_configText`). The lines are taken in the order
  they are written in: a password before passwords are encrypted, the default
  of the log before the destinations that refer to it.
-/

namespace RouterCli

open Text

namespace Program

variable {σ κ φ : Type} [FileStore φ] {p : Program σ κ} {host host' : Host}
  {world world' : World φ}

-- ============================================================================
-- Settings that concern the host alone
-- ============================================================================

theorem takes_name (hp : p.IsTerminal) (host : Host) (world : World φ)
    (hnone : host.name = none) {name : Option String}
    (hname : ∀ n ∈ name, IsWord n ∧ n.toList.head?.any Char.isAlpha) :
    p.Takes host world (name.map ("hostname " ++ ·)).toList { host with name } world := by
  cases name with
  | none =>
    exact .of_eq (by rw [← hnone])
  | some n =>
    obtain ⟨hword, hhead⟩ := hname n rfl
    have hline : "hostname " ++ n = unwords ["hostname", n] := by
      rw [unwords_cons_cons, unwords_singleton]
      rfl
    rw [Option.map_some, Option.toList_some, hline]
    have hwords := areWords_concat ["hostname"] (by decide) hword
    refine takes_line hp hwords (by decide) (Standard.means_hostname n) ?_
    intro app session
    show (if n.toList.head?.any Char.isAlpha then _ else _) = _
    rw [if_pos hhead]
    rfl

theorem takes_lines (hp : p.IsTerminal) (host : Host) (world : World φ)
    (hnone : host.lines = none) {lines : Option Nat}
    (hlines : ∀ n ∈ lines, n ≤ 512) :
    p.Takes host world (lines.map fun n => s!"service terminal-length {n}").toList
      { host with lines } world := by
  cases lines with
  | none =>
    exact .of_eq (by rw [← hnone])
  | some n =>
    have hle := hlines n rfl
    have hline : s!"service terminal-length {n}" =
        unwords ["service", "terminal-length", toString n] := by
      rw [unwords_cons_cons, unwords_cons_cons, unwords_singleton, ← String.append_assoc]
      rfl
    rw [Option.map_some, Option.toList_some, hline]
    have hwords :=
      areWords_concat ["service", "terminal-length"] (by decide) (isWord_toString n)
    have hlength : screenLength? [toString n] = some n :=
      readUnsigned_toString (Nat.le_trans hle (by decide))
    refine takes_line hp hwords (by decide) (Standard.means_serviceTerminalLength hle) ?_
    intro app session
    simp only [runBuiltin, Console.setLength, hlength]
    rfl

theorem takes_banner (hp : p.IsTerminal) (host : Host) (world : World φ)
    (hdefault : host.banner = .default) {banner : Banner} {lines : List String}
    (hlines : (match banner with
      | .file path => ["banner motd file " ++ path]
      | .none => ["no banner motd"]
      | .default => []) = lines)
    (hbanner : ∀ path, banner = .file path → IsWord path) :
    p.Takes host world lines { host with banner } world := by
  subst hlines
  cases banner with
  | default =>
    exact .of_eq (by rw [← hdefault])
  | none => exact takes_line hp (by decide) (by decide) Standard.means_noBanner fun _ _ => rfl
  | file path =>
    have hline : "banner motd file " ++ path = unwords ["banner", "motd", "file", path] := by
      rw [unwords_cons_cons, unwords_cons_cons, unwords_cons_cons, unwords_singleton]
      simp only [← String.append_assoc]
      rfl
    dsimp only
    rw [hline]
    have hwords := areWords_concat ["banner", "motd", "file"] (by decide) (hbanner path rfl)
    exact takes_line hp hwords (by decide) (Standard.means_bannerFile path) fun _ _ => rfl

omit [FileStore φ] in
/-- Passwords that are encrypted already stay as they are. -/
theorem enableEncryption_of_encrypted (hoff : host.encrypt = false)
    (hpassword : ∀ secret ∈ host.password, secret.isPlain = false)
    (henable : ∀ secret ∈ host.enable, secret.isPlain = false) :
    host.enableEncryption world = (.ok { host with encrypt := true }, world) := by
  have hstays : ∀ s : Option Secret, (∀ secret ∈ s, secret.isPlain = false) →
      Host.encryptSecret s world = (.ok s, world) := by
    intro s hs
    cases s with
    | none => rfl
    | some secret =>
      cases secret with
      | plain text => exact absurd (hs _ rfl) Bool.noConfusion
      | encrypted stored => rfl
  have hkeep : ¬ host.encrypt = true := by
    rw [hoff]
    exact Bool.noConfusion
  rw [Host.enableEncryption, if_neg hkeep, hstays _ hpassword]
  dsimp only
  rw [hstays _ henable]

theorem takes_encryption (hp : p.IsTerminal) (host : Host) (world : World φ)
    (hoff : host.encrypt = false) {encrypt : Bool}
    (hencrypted : encrypt → (∀ secret ∈ host.password, secret.isPlain = false) ∧
      ∀ secret ∈ host.enable, secret.isPlain = false) :
    p.Takes host world (if encrypt then ["service password-encryption"] else [])
      { host with encrypt } world := by
  cases encrypt with
  | false =>
    exact .of_eq (by rw [← hoff])
  | true =>
    obtain ⟨hpassword, henable⟩ := hencrypted rfl
    refine takes_line hp (by decide) (by decide) Standard.means_encryption ?_
    intro app session
    simp only [runBuiltin, Console.encryptPasswords,
      enableEncryption_of_encrypted hoff hpassword henable]

-- ============================================================================
-- Secrets
-- ============================================================================

omit [FileStore φ] in
theorem typedSecret_plain {c : Console σ κ φ} {text : String}
    (hhead : text.toList.head?.any Char.isAlphanum) (hoff : c.host.encrypt = false) :
    c.typedSecret [text] = (.accepted (.plain text), c) := by
  have hkept : c.host.secretFor text c.world = (.ok (.plain text), c.world) := by
    rw [Host.secretFor, hoff]
    rfl
  simp [Console.typedSecret, hhead, hkept]

/-- A secret is taken in the form it is written in. -/
theorem takes_secret (hp : p.IsTerminal) (front : String) (fronts : List String)
    {command : Builtin} {keep : Secret → Host → Host} {secret : Secret}
    (hfront : ∀ v ∈ front :: fronts, IsWord v)
    (hhead : front.toList.head? ≠ some '!' ∧ front.toList.head? ≠ some '#')
    (hplain : ∀ w, IsWord w → w ≠ "8" → Standard.Means true (front :: fronts ++ [w]) command [w])
    (hstored : ∀ w, Standard.Means true (front :: fronts ++ ["8", w]) command ["8", w])
    (hruns : ∀ args (c : Console σ κ φ), p.runBuiltin command args c = c.setSecret args keep)
    (hoff : host.encrypt = false) (hsecret : secret.IsWritable) :
    p.Takes host world [secret.configLine (unwords (front :: fronts))] (keep secret host)
      world := by
  cases secret with
  | plain text =>
    obtain ⟨hword, height, htext⟩ := hsecret
    have hline : (Secret.plain text).configLine (unwords (front :: fronts)) =
        unwords (front :: fronts ++ [text]) := by
      rw [unwords_append (List.cons_ne_nil front fronts), unwords_singleton]
      rfl
    have hwords := areWords_concat (front :: fronts) hfront hword
    rw [hline]
    refine takes_line hp hwords hhead (hplain text hword height) ?_
    intro app session
    rw [hruns, Console.setSecret, typedSecret_plain htext hoff]
    rfl
  | encrypted stored =>
    have hline : (Secret.encrypted stored).configLine (unwords (front :: fronts)) =
        unwords (front :: fronts ++ ["8", stored]) := by
      rw [unwords_append (List.cons_ne_nil front fronts), unwords_cons_cons, unwords_singleton]
      have height : " 8 " = " " ++ ("8" ++ " ") := rfl
      simp only [Secret.configLine, height, String.append_assoc]
    have hwords : ∀ v ∈ front :: fronts ++ ["8", stored], IsWord v :=
      List.forall_mem_append.2 ⟨hfront, areWords_concat ["8"] (by decide) hsecret⟩
    rw [hline]
    refine takes_line hp hwords hhead (hstored stored) ?_
    intro app session
    rw [hruns]
    rfl

theorem takes_password (hp : p.IsTerminal) (host : Host) (world : World φ)
    (hnone : host.password = none)
    (hoff : host.encrypt = false) {password : Option Secret}
    (hpassword : ∀ secret ∈ password, secret.IsWritable) :
    p.Takes host world (password.map (Secret.configLine "password")).toList
      { host with password } world := by
  cases password with
  | none =>
    exact .of_eq (by rw [← hnone])
  | some secret =>
    rw [Option.map_some, Option.toList_some, ← unwords_singleton "password"]
    exact takes_secret hp "password" [] (by decide) (by decide)
      (fun _ hw height => Standard.means_password hw height) Standard.means_storedPassword
      (fun _ _ => rfl) hoff (hpassword secret rfl)

theorem takes_enable (hp : p.IsTerminal) (host : Host) (world : World φ)
    (hnone : host.enable = none)
    (hoff : host.encrypt = false) {enable : Option Secret}
    (henable : ∀ secret ∈ enable, secret.IsWritable) :
    p.Takes host world (enable.map (Secret.configLine "enable password")).toList
      { host with enable } world := by
  cases enable with
  | none =>
    exact .of_eq (by rw [← hnone])
  | some secret =>
    have hfront : unwords ["enable", "password"] = "enable password" := by
      rw [unwords_cons_cons, unwords_singleton]
      rfl
    rw [Option.map_some, Option.toList_some, ← hfront]
    exact takes_secret hp "enable" ["password"] (by decide) (by decide)
      (fun _ hw height => Standard.means_enablePassword hw height)
      Standard.means_storedEnablePassword (fun _ _ => rfl) hoff (henable secret rfl)

-- ============================================================================
-- The log
-- ============================================================================

/-- The log file can be opened. -/
def Openable (file : Option LogFile) (files : φ) : Prop :=
  ∀ f ∈ file, ∃ opened, FileStore.openAppend files f.path = .ok opened

/-- The log file is open. -/
def IsOpen (file : Option LogFile) (logger : Logger) : Prop :=
  ∀ f ∈ file, logger.hasOpen (some f.path)

/-- Settings without a log file are always put in force, and leave the files
    alone. -/
theorem applyLog_of_none (world : World φ) {settings : LogSettings} (h : settings.file = none) :
    ∃ world', world.applyLog settings = .ok world' ∧ world'.files = world.files := by
  simp only [World.applyLog, h, Option.map_none]
  split
  · exact ⟨_, rfl, rfl⟩
  · exact ⟨_, rfl, rfl⟩

/-- A log file that can be opened is open once the settings are in force. -/
theorem applyLog_of_openable {settings : LogSettings} (h : Openable settings.file world.files) :
    ∃ world', world.applyLog settings = .ok world' ∧ IsOpen settings.file world'.logger := by
  cases hfile : settings.file with
  | none =>
    obtain ⟨world', happly, -⟩ := applyLog_of_none world hfile
    exact ⟨world', happly, by simp [IsOpen]⟩
  | some f =>
    simp only [World.applyLog, hfile, Option.map_some]
    split
    · rename_i hopen
      refine ⟨_, rfl, ?_⟩
      rintro f' ⟨⟩
      exact hopen
    · obtain ⟨opened, hopened⟩ := h f hfile
      rw [hopened]
      refine ⟨_, rfl, ?_⟩
      rintro f' ⟨⟩
      simp [Logger.hasOpen]

/-- A log file that is open stays so. -/
theorem applyLog_of_isOpen {settings : LogSettings} (h : IsOpen settings.file world.logger) :
    ∃ world', world.applyLog settings = .ok world' ∧ IsOpen settings.file world'.logger := by
  cases hfile : settings.file with
  | none =>
    obtain ⟨world', happly, -⟩ := applyLog_of_none world hfile
    exact ⟨world', happly, by simp [IsOpen]⟩
  | some f =>
    have hopen := h f hfile
    simp only [World.applyLog, hfile, Option.map_some, if_pos hopen]
    refine ⟨_, rfl, ?_⟩
    rintro f' ⟨⟩
    exact hopen

theorem setLogging_eq {c : Console σ κ φ} {edit : LogSettings → LogSettings}
    {settings : LogSettings} (hedit : edit c.host.logging = settings)
    (happly : c.world.applyLog settings = .ok world') :
    c.setLogging edit =
      (.ok .success, ⟨{ c.host with logging := settings }, c.app, world', c.session⟩) := by
  rw [Console.setLogging]
  dsimp only
  rw [hedit, happly]
  rfl

theorem setDestination_eq {c : Console σ κ φ} {word : Option String} {severity : Severity}
    {edit : Severity → LogSettings → LogSettings} {settings : LogSettings}
    (hword : severityOr word c.host.logging.default = .ok severity)
    (hedit : edit severity c.host.logging = settings)
    (happly : c.world.applyLog settings = .ok world') :
    c.setDestination word edit =
      (.ok .success, ⟨{ c.host with logging := settings }, c.app, world', c.session⟩) := by
  rw [Console.setDestination, hword]
  exact setLogging_eq hedit happly

theorem parse_name (s : Severity) : Severity.parse s.name = .ok s := by
  cases s <;> rfl

theorem isWord_name (s : Severity) : IsWord s.name := by
  cases s <;> decide

theorem takes_logTrap (hp : p.IsTerminal) (host : Host) (world : World φ)
    (hinitial : host.logging = {}) (default : Severity) :
    ∃ world', world'.files = world.files ∧
      p.Takes host world
        (if default = .debugging then []
          else ["! N.B. The 'log trap' command is deprecated.", "log trap " ++ default.name])
        { host with logging := { default } } world' := by
  by_cases hdebugging : default = .debugging
  · rw [if_pos hdebugging]
    exact ⟨world, rfl, .of_eq (by rw [hdebugging, ← hinitial])⟩
  · obtain ⟨world', happly, hfiles⟩ :=
      applyLog_of_none world (show ({ default } : LogSettings).file = none from rfl)
    refine ⟨world', hfiles, ?_⟩
    have hline : "log trap " ++ default.name = unwords ["log", "trap", default.name] := by
      rw [unwords_cons_cons, unwords_cons_cons, unwords_singleton]
      simp only [← String.append_assoc]
      rfl
    have hcomment : p.Takes host world ["! N.B. The 'log trap' command is deprecated."] host
        world := takes_comment (by decide) rfl rfl
    rw [if_neg hdebugging, hline]
    have hwords := areWords_concat ["log", "trap"] (by decide) (isWord_name default)
    have hedit : host.logging.setDefault default = { default } := by
      rw [hinitial]
      rfl
    refine hcomment.append (takes_line hp hwords (by decide) (Standard.means_logTrap default) ?_)
    intro app session
    exact setDestination_eq (parse_name default) hedit happly

/-- A destination is opened at the default where no severity is written. -/
theorem takes_destination (hp : p.IsTerminal) (front : String) (fronts : List String)
    {command : Builtin} {args : List String} {severity : Severity} {settings : LogSettings}
    (edit : Severity → LogSettings → LogSettings) (hfront : ∀ v ∈ front :: fronts, IsWord v)
    (hhead : front.toList.head? ≠ some '!' ∧ front.toList.head? ≠ some '#')
    (hplain : Standard.Means true (front :: fronts) command args)
    (hlevel : Standard.Means true (front :: fronts ++ [severity.name]) command (args ++ [severity.name]))
    (hruns : ∀ c : Console σ κ φ, p.runBuiltin command args c = c.setDestination none edit ∧
      p.runBuiltin command (args ++ [severity.name]) c =
        c.setDestination (some severity.name) edit)
    (hedit : edit severity host.logging = settings)
    (happly : world.applyLog settings = .ok world') :
    p.Takes host world [unwords (front :: fronts) ++ host.logging.severityWord severity]
      { host with logging := settings } world' := by
  by_cases hdefault : severity = host.logging.default
  · have hline : unwords (front :: fronts) ++ host.logging.severityWord severity =
        unwords (front :: fronts) := by
      rw [LogSettings.severityWord, if_pos hdefault, String.append_empty]
    rw [hline]
    refine takes_line hp hfront hhead hplain fun app session => ?_
    rw [(hruns _).1]
    exact setDestination_eq (congrArg Except.ok hdefault.symm) hedit happly
  · have hline : unwords (front :: fronts) ++ host.logging.severityWord severity =
        unwords (front :: (fronts ++ [severity.name])) := by
      rw [LogSettings.severityWord, if_neg hdefault, ← List.cons_append,
        unwords_append (List.cons_ne_nil front fronts), unwords_singleton, String.append_assoc]
    have hwords := areWords_concat (front :: fronts) hfront (isWord_name severity)
    rw [hline]
    refine takes_line hp hwords hhead hlevel fun app session => ?_
    rw [(hruns _).2]
    exact setDestination_eq (parse_name severity) hedit happly

theorem takes_logFile (hp : p.IsTerminal) (host : Host) (world : World φ)
    (hnone : host.logging.file = none)
    {file : Option LogFile} {lines : List String}
    (hlines : (match file with
      | some f => ["log file " ++ f.path ++ host.logging.severityWord f.severity]
      | none => []) = lines)
    (hword : ∀ f ∈ file, IsWord f.path) (hopen : Openable file world.files) :
    ∃ world' : World φ, IsOpen file world'.logger ∧
      p.Takes host world lines { host with logging := { host.logging with file } } world' := by
  subst hlines
  cases file with
  | none =>
    exact ⟨world, by simp [IsOpen], .of_eq (by rw [← hnone])⟩
  | some f =>
    obtain ⟨world', happly, hisOpen⟩ := applyLog_of_openable
      (show Openable ({ host.logging with file := some f } : LogSettings).file world.files from hopen)
    refine ⟨world', hisOpen, ?_⟩
    have hline : "log file " ++ f.path = unwords ["log", "file", f.path] := by
      rw [unwords_cons_cons, unwords_cons_cons, unwords_singleton]
      simp only [← String.append_assoc]
      rfl
    have hwords := areWords_concat ["log", "file"] (by decide) (hword f rfl)
    dsimp only
    rw [hline]
    exact takes_destination hp "log" ["file", f.path]
      (fun severity l => { l with file := some { path := f.path, severity } }) hwords (by decide)
      (Standard.means_logFile f.path) (Standard.means_logFileLevel f.path f.severity)
      (fun c => ⟨rfl, rfl⟩) rfl happly

theorem takes_logStdout (hp : p.IsTerminal) (host : Host) (world : World φ)
    (hnone : host.logging.stdout = none)
    (stdout : Option Severity) (hopen : IsOpen host.logging.file world.logger) :
    ∃ world' : World φ, IsOpen host.logging.file world'.logger ∧
      p.Takes host world
        (match stdout with
          | some severity => ["log stdout" ++ host.logging.severityWord severity]
          | none => [])
        { host with logging := { host.logging with stdout } } world' := by
  cases stdout with
  | none =>
    exact ⟨world, hopen, .of_eq (by rw [← hnone])⟩
  | some severity =>
    obtain ⟨world', happly, hisOpen⟩ := applyLog_of_isOpen
      (show IsOpen ({ host.logging with stdout := some severity } : LogSettings).file
        world.logger from hopen)
    refine ⟨world', hisOpen, ?_⟩
    have hline : "log stdout" = unwords ["log", "stdout"] := by
      rw [unwords_cons_cons, unwords_singleton]
      rfl
    dsimp only
    rw [hline]
    exact takes_destination hp "log" ["stdout"]
      (fun severity l => { l with stdout := some severity }) (by decide) (by decide)
      Standard.means_logStdout (Standard.means_logStdoutLevel severity)
      (fun c => ⟨rfl, rfl⟩) rfl happly

theorem takes_recordPriority (hp : p.IsTerminal) (host : Host) (world : World φ)
    (hoff : host.logging.recordPriority = false)
    (recordPriority : Bool) (hopen : IsOpen host.logging.file world.logger) :
    ∃ world' : World φ,
      p.Takes host world (if recordPriority then ["log record-priority"] else [])
        { host with logging := { host.logging with recordPriority } } world' := by
  cases recordPriority with
  | false =>
    exact ⟨world, .of_eq (by rw [← hoff])⟩
  | true =>
    obtain ⟨world', happly, -⟩ := applyLog_of_isOpen
      (show IsOpen ({ host.logging with recordPriority := true } : LogSettings).file
        world.logger from hopen)
    have hline : "log record-priority" = unwords ["log", "record-priority"] := by
      rw [unwords_cons_cons, unwords_singleton]
      rfl
    rw [if_pos rfl, hline]
    refine ⟨world', takes_line hp (by decide) (by decide) Standard.means_recordPriority ?_⟩
    intro app session
    show (⟨host, app, world, session⟩ : Console σ κ φ).setLogging
      (fun l => { l with recordPriority := true }) = _
    exact setLogging_eq rfl happly

theorem takes_logging (hp : p.IsTerminal) (host : Host) (world : World φ)
    (hinitial : host.logging = {}) {logging : LogSettings}
    (hword : ∀ f ∈ logging.file, IsWord f.path) (hopen : Openable logging.file world.files) :
    ∃ world', p.Takes host world logging.configLines { host with logging } world' := by
  obtain ⟨default, stdout, file, recordPriority⟩ := logging
  obtain ⟨w₁, hfiles, htrap⟩ := takes_logTrap hp host world hinitial default
  have hopen : Openable file w₁.files := by
    rw [hfiles]
    exact hopen
  obtain ⟨w₂, hisOpen, hfile⟩ :=
    takes_logFile hp { host with logging := { default } } w₁ rfl rfl hword hopen
  obtain ⟨w₃, hisOpen, hstdout⟩ :=
    takes_logStdout hp { host with logging := { default, file } } w₂ rfl stdout hisOpen
  obtain ⟨w₄, hpriority⟩ :=
    takes_recordPriority hp { host with logging := { default, file, stdout } } w₃ rfl
      recordPriority hisOpen
  exact ⟨w₄, ((htrap.append hfile).append hstdout).append hpriority⟩

-- ============================================================================
-- All settings
-- ============================================================================

/-- A host that can be written down is restored line by line. -/
theorem takes_configLines (hp : p.IsTerminal) (h : host.IsWritable)
    (hopen : Openable host.logging.file world.files) :
    ∃ world', p.Takes {} world host.configLines host world' := by
  obtain ⟨name, password, enable, encrypt, lines, banner, configFile, logging⟩ := host
  obtain rfl : configFile = none := h.configFile
  have hname := takes_name hp {} world rfl h.name
  have hpassword := takes_password hp { name } world rfl rfl h.password
  have henable := takes_enable hp { name, password } world rfl rfl h.enable
  obtain ⟨world', hlogging⟩ :=
    takes_logging hp { name, password, enable } world rfl h.logFile hopen
  have hencryption :=
    takes_encryption hp { name, password, enable, logging } world' rfl h.encrypted
  have hlines := takes_lines hp { name, password, enable, encrypt, logging } world' rfl h.lines
  have hbanner :=
    takes_banner hp { name, password, enable, encrypt, lines, logging } world' rfl rfl h.banner
  exact ⟨world', (((((hname.append hpassword).append henable).append hlogging).append
    hencryption).append hlines).append hbanner⟩

theorem replay_of_takes {lines : List String} (h : p.Takes host world lines host' world')
    {c : Console σ κ φ} (hhost : c.host = host) (hworld : c.world = world)
    (hc : c.session.AtMargin) :
    ∃ c' : Console σ κ φ, p.replay (.ofString (joinLines lines)) c = (.ok (), c') ∧
      c'.host = host' ∧
      ∀ d ∈ p.replayLog 1 c (ConfigText.ofString (joinLines lines)).lines,
        d.outcome = .ok .success := by
  obtain ⟨c', ⟨hhost', -, -⟩, hrun⟩ := h.run c hhost hworld hc
  obtain ⟨hrun, hlog⟩ := hrun 1
  refine ⟨c', ?_, hhost', ?_⟩
  · rw [replay, ConfigText.lines_ofString_joinLines h.plain, hrun]
    rfl
  · rw [ConfigText.lines_ofString_joinLines h.plain]
    exact hlog

/-- Whatever lines are typed, the settings they leave are written as a text
    that a fresh terminal reads back to the same settings, every line to full
    success, if it can open the log file. -/
theorem replay_configText {σ' κ' φ' : Type} [FileStore φ'] {q : Program σ' κ'}
    (hp : p.IsTerminal) (hq : q.IsTerminal) (lines : List String) {c : Console σ κ φ}
    (hc : c.host = {}) {fresh : Console σ' κ' φ'} (hfresh : fresh.host = {})
    (hsession : fresh.session.AtMargin)
    (hopen : Openable (p.executeAll lines c).host.logging.file fresh.world.files) :
    ∃ after : Console σ' κ' φ',
      q.replay (.ofString (p.executeAll lines c).host.configText) fresh = (.ok (), after) ∧
      after.host = (p.executeAll lines c).host ∧
      ∀ d ∈ q.replayLog 1 fresh
        (ConfigText.ofString (p.executeAll lines c).host.configText).lines,
        d.outcome = .ok .success := by
  obtain ⟨app, hregistry⟩ := hp.1
  have hwritable : (p.executeAll lines c).host.IsWritable := by
    refine executeAll_writable hregistry lines ?_
    rw [hc]
    exact Host.IsWritable.empty
  obtain ⟨world, htakes⟩ := takes_configLines hq hwritable hopen
  exact replay_of_takes htakes hfresh rfl hsession

/-- A terminal without an application. -/
def plainTerminal : Program Unit Unit where
  registry := terminalRegistry ⟨"router", "1.0", none⟩
  application := Application.none

/-- A fresh session at the global configuration, over an empty directory. -/
def plainConsole : Console Unit Unit FileTree where
  host := {}
  app := ()
  world := { files := FileTree.empty, salts := { draw := fun _ => none } }
  session := { node := .config }

/-- A log file that takes errors. -/
def routerLog : LogSettings where
  file := some { path := "router.log", severity := .errors }

theorem openAppend_routerLog :
    ∃ opened, FileStore.openAppend FileTree.empty "router.log" = .ok opened := by
  have hsteps : FileTree.allSteps "router.log" = ["router.log"] := by decide +kernel
  have hvacant : FileTree.empty.locate .creation "router.log" =
      .ok (.vacant FileTree.workingDirectory "router.log") := by
    rw [FileTree.locate, show FileTree.checkPath "router.log" = .ok () from rfl, hsteps]
    show FileTree.empty.follow _ _ _ _ = _
    rw [FileTree.follow]
    rfl
  show ∃ opened, FileTree.openAppend _ _ = _
  rw [FileTree.openAppend, hvacant]
  exact ⟨_, rfl⟩

theorem execute_of_means (hp : p.IsTerminal) {line w : String} {ws args : List String}
    {command : Builtin} {c c' : Console σ κ φ} (hnode : c.session.node = .config)
    (hline : (Line.parse line).words = w :: ws) (hdo : w ≠ doWord)
    (hmeans : Standard.Means false (w :: ws) command args)
    (hrun : p.runBuiltin command args c = (.ok .success, c')) : p.execute line c =
      (.ok .success, c') := by
  have hempty : (Line.parse line).isEmpty = false := by
    rw [Line.isEmpty, hline]
    rfl
  have hshortcut : isShortcut c.session.node (Line.parse line).first? = false := by
    rw [Line.first?, hline]
    simp [isShortcut, hdo]
  rw [p.execute_of_plain hempty hshortcut, hline]
  exact dispatch_of_means hp hnode hmeans hrun

/-- A name and a log file, whose line is shortened. -/
theorem replay_configText_routerLog :
    ∃ after : Console Unit Unit FileTree,
      plainTerminal.replay
        (.ofString (plainTerminal.executeAll ["hostname router", "log file router.log err"]
          plainConsole).host.configText) plainConsole = (.ok (), after) ∧
      after.host = { name := some "router", logging := routerLog } := by
  have hp : plainTerminal.IsTerminal := ⟨⟨_, rfl⟩, rfl⟩
  have hopen : Openable routerLog.file plainConsole.world.files := by
    rintro f ⟨⟩
    exact openAppend_routerLog
  have hmeans : Standard.Means false ["hostname", "router"] .hostname ["router"] ∧
      Standard.Means false ["log", "file", "router.log", "err"] .logFile
        ["router.log", "err"] := by
    decide +kernel
  have hname : plainTerminal.execute "hostname router" plainConsole =
      (.ok .success, { plainConsole with host := { name := some "router" } }) :=
    execute_of_means hp rfl (by decide +kernel) (by decide) hmeans.1 rfl
  obtain ⟨world, happly, -⟩ := applyLog_of_openable hopen
  have hlog : plainTerminal.execute "log file router.log err"
      { plainConsole with host := { name := some "router" } } = (.ok .success,
        { plainConsole with world, host := { name := some "router", logging := routerLog } }) := by
    refine execute_of_means hp rfl (by decide +kernel) (by decide) hmeans.2 ?_
    show Console.setDestination (⟨{ name := some "router" }, (), plainConsole.world, _⟩ :
      Console Unit Unit FileTree) (some "err")
        (fun severity l => { l with file := some { path := "router.log", severity } }) = _
    exact setDestination_eq rfl rfl happly
  have hhost : (plainTerminal.executeAll ["hostname router", "log file router.log err"]
      plainConsole).host = { name := some "router", logging := routerLog } := by
    rw [executeAll, List.foldl_cons, hname, List.foldl_cons, hlog]
    rfl
  obtain ⟨after, hreplay, hsame, -⟩ := replay_configText hp hp
    ["hostname router", "log file router.log err"] rfl rfl ⟨rfl, rfl, .inl rfl⟩
    (by rw [hhost]; exact hopen)
  exact ⟨after, hreplay, hsame.trans hhost⟩

end Program

end RouterCli
