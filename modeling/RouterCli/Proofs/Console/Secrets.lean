import RouterCli.Proofs.Console.HostChange
import RouterCli.Proofs.Console.Refusal

/-!
  RouterCli.Proofs.Console.Secrets

  While the encryption of passwords is on, no password is kept as it was typed, and
  none is written so (`Program.runEntries_hidesPasswords`). Each change of the settings
  keeps the secrets sealed (`Host.Change.isSealed`), and the one that turns encryption
  on leaves every password as good as it was (`Host.Change.accepts`). The lines of the
  configuration text tell a password in its stored form only
  (`Host.IsSealed.showsStored`).
-/

namespace RouterCli

open Text

-- ============================================================================
-- Texts in one line
-- ============================================================================

namespace Text

/-- The text holds no line break. -/
def HasNoLineBreak (text : String) : Prop :=
  ∀ ch ∈ text.toList, isLineBreak ch = false

instance (text : String) : Decidable (HasNoLineBreak text) :=
  decidable_of_iff ((text.toList.all fun ch => !isLineBreak ch) = true) (by simp [HasNoLineBreak])

theorem HasNoLineBreak.append {a b : String} (ha : HasNoLineBreak a) (hb : HasNoLineBreak b) :
    HasNoLineBreak (a ++ b) := by
  rw [HasNoLineBreak, String.toList_append]
  exact List.forall_mem_append.2 ⟨ha, hb⟩

theorem HasNoBlank.hasNoLineBreak {text : String} (h : HasNoBlank text) :
    HasNoLineBreak text := by
  intro ch hch
  cases hbreak : isLineBreak ch with
  | false => rfl
  | true => exact absurd (isBlank_of_isLineBreak hbreak) (by simp [h ch hch])

end Text

theorem hasNoLineBreak_name (s : Severity) : HasNoLineBreak s.name := by
  cases s <;> decide

theorem Secret.hasNoLineBreak_configLine {keyword : String} (hkeyword : HasNoLineBreak keyword)
    {secret : Secret} (h : HasNoBlank secret.text) :
    HasNoLineBreak (secret.configLine keyword) := by
  cases secret with
  | plain text => exact .append (.append hkeyword (by decide)) h.hasNoLineBreak
  | encrypted stored => exact .append (.append hkeyword (by decide)) h.hasNoLineBreak

-- ============================================================================
-- Sealed secrets
-- ============================================================================

section

variable {φ : Type} {w w' : World φ}

theorem Secret.isPlain_of_encrypt {s s' : Secret} (h : s.encrypt w = (.ok s', w')) :
    s'.isPlain = false := by
  rcases encrypt_cases h with ⟨-, -, -, -, rfl, -⟩ | ⟨-, -, rfl⟩ <;> rfl

/-- The password that was accepted still is. -/
theorem Secret.accepts_of_encrypt {s s' : Secret} (h : s.encrypt w = (.ok s', w'))
    {input : String} (haccepts : s.accepts input = true) : s'.accepts input = true := by
  rcases encrypt_cases h with ⟨text, stored, salts, rfl, rfl, hstored⟩ | ⟨stored, rfl, rfl⟩
  · obtain rfl : text = input := beq_iff_eq.1 haccepts
    exact StoredPassword.verify_of_encrypt hstored
  · exact haccepts

end

namespace Host

/-- Where passwords are encrypted, these are. -/
def IsSealed (h : Host) : Prop :=
  h.encrypt = true → (∀ secret ∈ h.password, secret.isPlain = false) ∧
    ∀ secret ∈ h.enable, secret.isPlain = false

theorem isSealed_empty : IsSealed {} :=
  fun hencrypt => nomatch hencrypt

variable {φ : Type} {h h' : Host} {w : World φ} {command : Builtin} {args : List String}

theorem Admits.isPlain {secret : Secret} (hsecret : h.Admits w args secret)
    (hencrypt : h.encrypt = true) : secret.isPlain = false := by
  cases hsecret with
  | stored => rfl
  | typed _ hsecret =>
    rw [secretFor, if_pos hencrypt] at hsecret
    exact Secret.isPlain_of_encrypt hsecret

theorem isPlain_of_encryptSecret {s s' : Option Secret} {w' : World φ}
    (hs : encryptSecret s w = (.ok s', w')) : ∀ secret ∈ s', secret.isPlain = false := by
  rcases encryptSecret_cases hs with ⟨-, rfl⟩ | ⟨secret, secret', -, rfl, hencrypt⟩
  · simp
  · rintro found ⟨⟩
    exact Secret.isPlain_of_encrypt hencrypt

theorem accepts_of_encryptSecret {s s' : Option Secret} {w' : World φ}
    (hs : encryptSecret s w = (.ok s', w')) {input : String}
    (haccepts : s.any (·.accepts input) = true) : s'.any (·.accepts input) = true := by
  rcases encryptSecret_cases hs with ⟨rfl, rfl⟩ | ⟨secret, secret', rfl, rfl, hencrypt⟩
  · exact haccepts
  · exact Secret.accepts_of_encrypt hencrypt haccepts

/-- No change leaves a password as it was typed where passwords are encrypted. -/
theorem Change.isSealed (hchange : h.Change w command args h') (hh : h.IsSealed) :
    h'.IsSealed := by
  cases hchange with
  | same | name | noName | lines | noLines | banner | logging => exact hh
  | password hsecret =>
    refine fun hencrypt => ⟨?_, (hh hencrypt).2⟩
    rintro found ⟨⟩
    exact hsecret.isPlain hencrypt
  | enable hsecret =>
    refine fun hencrypt => ⟨(hh hencrypt).1, ?_⟩
    rintro found ⟨⟩
    exact hsecret.isPlain hencrypt
  | noEnable => exact fun hencrypt => ⟨(hh hencrypt).1, by simp⟩
  | encryption hs =>
    rcases enableEncryption_cases hs with
      ⟨-, rfl⟩ | ⟨password, enable, w₁, hpassword, henable, rfl⟩
    · exact hh
    · exact fun _ => ⟨isPlain_of_encryptSecret hpassword, isPlain_of_encryptSecret henable⟩
  | noEncryption =>
    unfold disableEncryption
    split
    · exact fun hencrypt => nomatch hencrypt
    · exact hh

/-- Whatever turns encryption on leaves every password accepted. -/
theorem Change.accepts (hchange : h.Change w command args h') (hoff : h.encrypt = false)
    (hon : h'.encrypt = true) (input : String) :
    (h.acceptsLogin input = true → h'.acceptsLogin input = true) ∧
      (h.acceptsEnable input = true → h'.acceptsEnable input = true) := by
  cases hchange with
  | encryption hs =>
    rcases enableEncryption_cases hs with
      ⟨hencrypt, -⟩ | ⟨password, enable, w₁, hpassword, henable, rfl⟩
    · exact absurd (hencrypt.symm.trans hoff) (by decide)
    · exact ⟨accepts_of_encryptSecret hpassword, accepts_of_encryptSecret henable⟩
  | noEncryption =>
    rw [disableEncryption, hoff] at hon
    exact absurd (hon.symm.trans hoff) (by decide)
  | _ => exact absurd (hon.symm.trans hoff) (by decide)

-- ============================================================================
-- Lines of a configuration text
-- ============================================================================

/-- The lines that the settings of a host may be written in. -/
inductive Writes (h : Host) : String → Prop where
  | name {name : String} (hname : name ∈ h.name) : Writes h ("hostname " ++ name)
  | password {secret : Secret} (hsecret : secret ∈ h.password) :
      Writes h (secret.configLine "password")
  | enable {secret : Secret} (hsecret : secret ∈ h.enable) :
      Writes h (secret.configLine "enable password")
  | comment : Writes h "! N.B. The 'log trap' command is deprecated."
  | logTrap : Writes h ("log trap " ++ h.logging.default.name)
  | logFile {file : LogFile} (hfile : file ∈ h.logging.file) :
      Writes h ("log file " ++ file.path ++ h.logging.severityWord file.severity)
  | logStdout (severity : Severity) :
      Writes h ("log stdout" ++ h.logging.severityWord severity)
  | recordPriority : Writes h "log record-priority"
  | encryption : Writes h "service password-encryption"
  | lines (n : Nat) : Writes h ("service terminal-length " ++ toString n)
  | banner {path : String} (hpath : h.banner = .file path) :
      Writes h ("banner motd file " ++ path)
  | noBanner : Writes h "no banner motd"

theorem writes_of_mem_logging {line : String} (hline : line ∈ h.logging.configLines) :
    h.Writes line := by
  simp only [LogSettings.configLines, List.mem_append] at hline
  rcases hline with ((htrap | hfile) | hstdout) | hpriority
  · split at htrap
    · simp at htrap
    · rw [List.mem_cons, List.mem_singleton] at htrap
      rcases htrap with rfl | rfl
      · exact .comment
      · exact .logTrap
  · split at hfile
    · rename_i file heq
      obtain rfl := List.mem_singleton.1 hfile
      exact .logFile heq
    · simp at hfile
  · split at hstdout
    · obtain rfl := List.mem_singleton.1 hstdout
      exact .logStdout _
    · simp at hstdout
  · split at hpriority
    · obtain rfl := List.mem_singleton.1 hpriority
      exact .recordPriority
    · simp at hpriority

theorem writes_of_mem_configLines {line : String} (hline : line ∈ h.configLines) :
    h.Writes line := by
  simp only [configLines, List.mem_append, Option.mem_toList, Option.map_eq_some_iff] at hline
  rcases hline with ((((((⟨name, hname, rfl⟩ | ⟨secret, hsecret, rfl⟩) | ⟨secret, hsecret, rfl⟩) |
    hlogging) | hencryption) | ⟨n, -, rfl⟩) | hbanner)
  · exact .name hname
  · exact .password hsecret
  · exact .enable hsecret
  · exact writes_of_mem_logging hlogging
  · split at hencryption
    · obtain rfl := List.mem_singleton.1 hencryption
      exact .encryption
    · simp at hencryption
  · exact .lines n
  · split at hbanner
    · rename_i path heq
      obtain rfl := List.mem_singleton.1 hbanner
      exact .banner heq
    · obtain rfl := List.mem_singleton.1 hbanner
      exact .noBanner
    · simp at hbanner

/-- A password that the line gives is the host's own, in its stored form. -/
structure ShowsStored (h : Host) (line : String) : Prop where
  login : ∀ rest, line = "password " ++ rest →
    ∃ stored, h.password = some (.encrypted stored) ∧ rest = "8 " ++ stored
  enable : ∀ rest, line = "enable password " ++ rest →
    ∃ stored, h.enable = some (.encrypted stored) ∧ rest = "8 " ++ stored

/-- A line that begins as no password command does gives no password. -/
theorem showsStored_of_head {line : String}
    (h₁ : line.toList.head? ≠ some 'p') (h₂ : line.toList.head? ≠ some 'e') :
    h.ShowsStored line := by
  constructor
  · rintro rest rfl
    exact absurd (by simp) h₁
  · rintro rest rfl
    exact absurd (by simp) h₂

theorem exists_stored_of_isPlain {secret : Secret} (hkind : secret.isPlain = false) :
    ∃ stored, secret = .encrypted stored := by
  cases secret with
  | plain text => cases hkind
  | encrypted stored => exact ⟨stored, rfl⟩

theorem IsSealed.showsStored (hh : h.IsSealed) (hencrypt : h.encrypt = true) {line : String}
    (hline : h.Writes line) : h.ShowsStored line := by
  obtain ⟨hpassword, henable⟩ := hh hencrypt
  cases hline with
  | password hsecret =>
    obtain ⟨stored, rfl⟩ := exists_stored_of_isPlain (hpassword _ hsecret)
    refine ⟨fun rest hrest => ⟨stored, hsecret, ?_⟩, fun rest hrest => ?_⟩
    · have hline : "password " ++ ("8 " ++ stored) = "password " ++ rest := by
        rw [← hrest, Secret.configLine, ← String.append_assoc]
        rfl
      exact ((String.append_right_inj _).1 hline).symm
    · exact absurd (congrArg (·.toList.head?) hrest) (by simp [Secret.configLine])
  | enable hsecret =>
    obtain ⟨stored, rfl⟩ := exists_stored_of_isPlain (henable _ hsecret)
    refine ⟨fun rest hrest => ?_, fun rest hrest => ⟨stored, hsecret, ?_⟩⟩
    · exact absurd (congrArg (·.toList.head?) hrest) (by simp [Secret.configLine])
    · have hline : "enable password " ++ ("8 " ++ stored) = "enable password " ++ rest := by
        rw [← hrest, Secret.configLine, ← String.append_assoc]
        rfl
      exact ((String.append_right_inj _).1 hline).symm
  | _ => exact showsStored_of_head (by simp) (by simp)

/-- Settings without blanks are written in lines without line breaks. -/
theorem Writes.hasNoLineBreak {line : String} (hline : h.Writes line) (hh : h.HasNoBlanks) :
    HasNoLineBreak line := by
  have hlevel : ∀ severity, HasNoLineBreak (h.logging.severityWord severity) := by
    intro severity
    unfold LogSettings.severityWord
    split
    · decide
    · exact .append (by decide) (hasNoLineBreak_name severity)
  cases hline with
  | name hname => exact .append (by decide) (hh.name _ hname).hasNoLineBreak
  | password hsecret => exact Secret.hasNoLineBreak_configLine (by decide) (hh.password _ hsecret)
  | enable hsecret => exact Secret.hasNoLineBreak_configLine (by decide) (hh.enable _ hsecret)
  | logTrap => exact .append (by decide) (hasNoLineBreak_name _)
  | logFile hfile => exact .append (.append (by decide) (hh.logFile _ hfile).hasNoLineBreak) (hlevel _)
  | logStdout severity => exact .append (by decide) (hlevel severity)
  | lines n => exact .append (by decide) fun _ hch => (isWord_toString n).isLineBreak hch
  | banner hpath => exact .append (by decide) (hh.banner _ hpath).hasNoLineBreak
  | _ => decide

/-- Settings without blanks are read line by line as they were written. -/
theorem HasNoBlanks.lines_configText (hh : h.HasNoBlanks) :
    (ConfigText.ofString h.configText).lines = h.configLines :=
  ConfigText.lines_ofString_joinLines fun _ hline =>
    (writes_of_mem_configLines hline).hasNoLineBreak hh

end Host

-- ============================================================================
-- What is printed and saved
-- ============================================================================

namespace Program

variable {σ κ φ : Type}

theorem exists_pieces_configAt (p : Program σ κ) (host : Host) (app : σ) (node : NodeId) :
    ∃ pieces, ((p.configAt host app node).map (· ++ "!\n")).getD "" = String.join pieces ∧
      ∀ piece ∈ pieces, piece = host.configText ∨ piece = "!\n" ∨
        ∃ node, p.application.configAt app node = some piece := by
  have hhost : ∀ text ∈ (if node = .config then some host.configText else none),
      text = host.configText := by
    intro text htext
    split at htext
    · exact (Option.some.inj htext).symm
    · cases htext
  have hpart : ∀ text, p.application.configAt app node = some text →
      ∃ node, p.application.configAt app node = some text := fun text h => ⟨node, h⟩
  unfold configAt
  dsimp only
  split
  · exact ⟨[], rfl, by simp⟩
  · rename_i a ha _
    exact ⟨[a, "!\n"], by simp, by simp [hhost a ha]⟩
  · rename_i b _ hb
    exact ⟨[b, "!\n"], by simp, by simp [hpart b hb]⟩
  · rename_i a b ha hb
    exact ⟨[a, b, "!\n"], by simp [String.append_assoc], by simp [hhost a ha, hpart b hb]⟩

/-- A configuration is made of the host's settings, of separators and of what the
    application adds. -/
theorem exists_pieces (p : Program σ κ) (host : Host) (app : σ) :
    ∃ pieces, p.configText host app = String.join pieces ∧
      ∀ piece ∈ pieces, piece = host.configText ∨ piece = "!\n" ∨
        ∃ node, p.application.configAt app node = some piece := by
  unfold configText
  induction p.registry.nodes.filter (·.definition.writesConfig) with
  | nil => exact ⟨[], rfl, by simp⟩
  | cons n rest ih =>
    obtain ⟨pieces, hrest, hpieces⟩ := ih
    obtain ⟨here, hhere, hmem⟩ := p.exists_pieces_configAt host app n.id
    refine ⟨here ++ pieces, ?_, List.forall_mem_append.2 ⟨hmem, hpieces⟩⟩
    rw [String.join_append, ← hrest, ← hhere]
    cases hconfig : p.configAt host app n.id with
    | none => simp [hconfig]
    | some text => simp [hconfig]

-- ============================================================================
-- Lines
-- ============================================================================

/-- A line, the session it is run in, and whether it is run the strict way. -/
structure Entry (κ : Type) where
  session : Session κ
  strict : Bool
  line : String

variable [FileStore φ]

/-- Run a line in its session. -/
def runEntry (p : Program σ κ) (e : Entry κ) (c : Console σ κ φ) : Console σ κ φ :=
  (p.run e.strict e.line { c with session := e.session }).2

/-- Run lines one after the other, each in a session of its own. -/
def runEntries (p : Program σ κ) (entries : List (Entry κ)) (c : Console σ κ φ) :
    Console σ κ φ :=
  entries.foldl (fun c e => p.runEntry e c) c

/-- A line makes one change to the host, with words of its own as arguments, or none. -/
theorem runEntry_change (p : Program σ κ) (e : Entry κ) (c : Console σ κ φ) :
    ∃ command args, (∀ w ∈ args, IsWord w) ∧
      c.host.Change c.world command args (p.runEntry e c).host := by
  have hdispatch : ∀ (words : List String) (strict : Bool) (session : Session κ),
      (∀ w ∈ words, IsWord w) → ∃ command args, (∀ w ∈ args, IsWord w) ∧
        c.host.Change c.world command args
          (p.dispatch words strict { c with session }).2.host := by
    intro words strict session hwords
    rcases p.dispatch_change words strict { c with session } with
      hsame | ⟨found, command, -, -, hargs, hchange⟩
    · rw [hsame]
      exact ⟨.help, [], by simp, .same⟩
    · exact ⟨command, found.arguments, fun w hw => hwords w (hargs w hw), hchange⟩
  have hwords : ∀ w ∈ (Line.parse e.line).words, IsWord w := fun w hw => isWord_of_mem_wordsOf hw
  have hsame : ∃ command args, (∀ w ∈ args, IsWord w) ∧ c.host.Change c.world command args c.host :=
    ⟨.help, [], by simp, .same⟩
  unfold runEntry run executeStrict execute
  dsimp only
  split_ifs
  · exact hsame
  · exact hdispatch _ _ _ hwords
  · exact hsame
  · exact hdispatch _ _ _ fun w hw => hwords w (List.mem_of_mem_tail hw)
  · exact hdispatch _ _ _ hwords

theorem runEntries_host (p : Program σ κ) (entries : List (Entry κ)) {c : Console σ κ φ}
    (hsealed : c.host.IsSealed) (hblanks : c.host.HasNoBlanks) :
    (p.runEntries entries c).host.IsSealed ∧ (p.runEntries entries c).host.HasNoBlanks := by
  induction entries generalizing c with
  | nil => exact ⟨hsealed, hblanks⟩
  | cons e rest ih =>
    obtain ⟨command, args, hargs, hchange⟩ := p.runEntry_change e c
    exact ih (hchange.isSealed hsealed) (hchange.hasNoBlanks hargs hblanks)

/-- Whatever lines are run in whatever sessions, and whichever salts there are: while
    the encryption of passwords is on, none is kept as it was typed, and a printed or
    saved configuration gives passwords in their stored form, unless the application
    gives some. A line that turns encryption on leaves every password accepted. -/
theorem runEntries_hidesPasswords (p : Program σ κ) (entries : List (Entry κ)) (app : σ)
    (world : World φ) (session : Session κ) :
    let after := p.runEntries entries ⟨{}, app, world, session⟩
    (after.host.encrypt = true →
      (∀ secret ∈ after.host.password, secret.isPlain = false) ∧
      (∀ secret ∈ after.host.enable, secret.isPlain = false) ∧
      (∀ line ∈ (ConfigText.ofString after.host.configText).lines,
        after.host.ShowsStored line) ∧
      ∃ pieces, (∀ piece ∈ pieces, piece = after.host.configText ∨ piece = "!\n" ∨
          ∃ node, p.application.configAt after.app node = some piece) ∧
        p.runningConfig after.host after.app =
          "\nCurrent configuration:\n!\n" ++ String.join pieces ++ "end\n" ∧
        p.savedConfig after.host after.app =
          "!\n! " ++ p.registry.app.name ++ " (" ++ p.registry.app.version ++
            ") configuration saved from vty\n!!\n" ++ String.join pieces) ∧
    ∀ e, after.host.encrypt = false → (p.runEntry e after).host.encrypt = true → ∀ input,
      (after.host.acceptsLogin input = true →
        (p.runEntry e after).host.acceptsLogin input = true) ∧
      (after.host.acceptsEnable input = true →
        (p.runEntry e after).host.acceptsEnable input = true) := by
  intro after
  obtain ⟨hsealed, hblanks⟩ : after.host.IsSealed ∧ after.host.HasNoBlanks :=
    p.runEntries_host entries Host.isSealed_empty .empty
  clear_value after
  refine ⟨fun hencrypt => ?_, fun e hoff hon input => ?_⟩
  · obtain ⟨pieces, htext, hpieces⟩ := p.exists_pieces after.host after.app
    refine ⟨(hsealed hencrypt).1, (hsealed hencrypt).2, ?_, pieces, hpieces, ?_, ?_⟩
    · rw [hblanks.lines_configText]
      exact fun line hline =>
        hsealed.showsStored hencrypt (Host.writes_of_mem_configLines hline)
    · exact congrArg (fun text => "\nCurrent configuration:\n!\n" ++ text ++ "end\n") htext
    · rw [← htext, savedConfig]
  · obtain ⟨command, args, -, hchange⟩ := p.runEntry_change e after
    exact hchange.accepts hoff hon input

/-- Commands for passwords, at the global configuration. -/
def passwordTerminal : Program Unit String where
  registry := ({ app := ⟨"bsc", "1.0", none⟩ : Registry }.installAll
    ((.node { id := .config, prompt := "%s(config)# " } : Registry.Installation) ::
      [Standard.password, Standard.enablePassword, Standard.passwordEncryption].map
        (.command .config))).1
  application := .none

/-- A line typed at the global configuration. -/
def typedAtConfig (line : String) : Entry String :=
  ⟨{ node := .config }, false, line⟩

/-- A new host, with salts for three passwords. -/
def saltedConsole : Console Unit String FileTree where
  host := {}
  app := ()
  world := { files := ⟨[]⟩, salts := .ofBytes (List.replicate (3 * saltLength) 7) }
  session := { node := .config }

/-- Two passwords are typed, encryption is turned on, and the login password is typed
    anew. -/
theorem runEntries_hidesPasswords_passwordTerminal :
    let typed := ["password login", "enable password secret"].map typedAtConfig
    let on := typedAtConfig "service password-encryption"
    let before := passwordTerminal.runEntries typed saltedConsole
    let after := passwordTerminal.runEntries (typed ++ [on, typedAtConfig "password other"])
      saltedConsole
    (before.host.acceptsLogin "login" = true ∧
      (passwordTerminal.runEntry on before).host.acceptsLogin "login" = true) ∧
    (after.host.encrypt = true ∧ after.host.password.isSome = true) ∧
    (∀ secret ∈ after.host.password, secret.isPlain = false) ∧
    ∀ secret ∈ after.host.enable, secret.isPlain = false := by
  intro typed on before after
  obtain ⟨hlogin, hoff, hon⟩ : before.host.acceptsLogin "login" = true ∧
      before.host.encrypt = false ∧
      (passwordTerminal.runEntry on before).host.encrypt = true := by
    decide +kernel
  obtain ⟨hencrypt, hsome⟩ : after.host.encrypt = true ∧
      after.host.password.isSome = true := by
    decide +kernel
  have hbefore := runEntries_hidesPasswords passwordTerminal typed () saltedConsole.world
    saltedConsole.session
  have hafter := runEntries_hidesPasswords passwordTerminal
    (typed ++ [on, typedAtConfig "password other"]) () saltedConsole.world saltedConsole.session
  exact ⟨⟨hlogin, (hbefore.2 on hoff hon "login").1 hlogin⟩, ⟨hencrypt, hsome⟩,
    (hafter.1 hencrypt).1, (hafter.1 hencrypt).2.1⟩

end Program

end RouterCli
