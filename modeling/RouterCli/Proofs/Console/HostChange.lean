import RouterCli.Proofs.Console.WritableHost
import RouterCli.Proofs.Password.Verified

/-!
  RouterCli.Proofs.Console.HostChange

  All that a line may do to the settings of a host (`Host.Change`). A command of the
  library gives one of them a value from its arguments, drops one, or turns the
  encryption of passwords on or off, and a command of an application does nothing to
  them (`Program.dispatch_change`). What holds of a host whatever is run there is
  shown change by change; so no text among the settings ever holds a blank
  (`Host.Change.hasNoBlanks`).
-/

namespace RouterCli

open Text

-- ============================================================================
-- Encrypting
-- ============================================================================

section

variable {φ : Type} {w w' : World φ}

/-- A secret that is typed is encrypted, and a stored one stays. -/
theorem Secret.encrypt_cases {s s' : Secret} (h : s.encrypt w = (.ok s', w')) :
    (∃ text stored salts, s = .plain text ∧ s' = .encrypted stored ∧
      StoredPassword.encrypt text w.salts = (.ok stored, salts)) ∨
    ∃ stored, s = .encrypted stored ∧ s' = .encrypted stored := by
  cases s with
  | encrypted stored =>
    cases h
    exact .inr ⟨stored, rfl, rfl⟩
  | plain text =>
    refine .inl ?_
    simp only [encrypt, World.encrypt] at h
    cases hstored : StoredPassword.encrypt text w.salts with
    | mk result salts =>
      rw [hstored] at h
      cases result with
      | error e => cases h
      | ok stored =>
        cases h
        exact ⟨text, stored, salts, rfl, rfl, hstored⟩

theorem Host.encryptSecret_cases {s s' : Option Secret}
    (h : Host.encryptSecret s w = (.ok s', w')) :
    s = none ∧ s' = none ∨
      ∃ secret secret', s = some secret ∧ s' = some secret' ∧
        secret.encrypt w = (.ok secret', w') := by
  cases s with
  | none =>
    cases h
    exact .inl ⟨rfl, rfl⟩
  | some secret =>
    refine .inr ?_
    simp only [encryptSecret] at h
    cases hencrypt : secret.encrypt w with
    | mk result w'' =>
      rw [hencrypt] at h
      cases result with
      | error e => cases h
      | ok secret' =>
        cases h
        exact ⟨secret, secret', rfl, rfl, hencrypt⟩

/-- Encryption is on already, or both passwords are encrypted one after the other. -/
theorem Host.enableEncryption_cases {h h' : Host} (hs : h.enableEncryption w = (.ok h', w')) :
    h.encrypt = true ∧ h' = h ∨
      ∃ password enable w₁, encryptSecret h.password w = (.ok password, w₁) ∧
        encryptSecret h.enable w₁ = (.ok enable, w') ∧
        h' = { h with password, enable, encrypt := true } := by
  unfold enableEncryption at hs
  split at hs
  · rename_i hon
    cases hs
    exact .inl ⟨hon, rfl⟩
  · split at hs
    · cases hs
    · rename_i password w₁ hpassword
      split at hs
      · cases hs
      · rename_i enable w₂ henable
        cases hs
        exact .inr ⟨password, enable, w₁, hpassword, henable, rfl⟩

end

-- ============================================================================
-- Changes
-- ============================================================================

namespace Host

variable {φ : Type}

/-- A password command with these arguments may keep this secret: one of the words,
    in the form that passwords are kept in, or a stored form. -/
inductive Admits (h : Host) (w : World φ) (args : List String) : Secret → Prop where
  | typed {text : String} {secret : Secret} {w' : World φ} (htext : text ∈ args)
      (hsecret : h.secretFor text w = (.ok secret, w')) : Admits h w args secret
  | stored {text : String} (htext : text ∈ args) : Admits h w args (.encrypted text)

/-- What a command with these arguments may make of the settings of a host. -/
inductive Change (h : Host) (w : World φ) (command : Builtin) (args : List String) :
    Host → Prop where
  | same : Change h w command args h
  | name {name : String} (hname : name ∈ args) :
      Change h w command args { h with name := some name }
  | noName : Change h w command args { h with name := .none }
  | lines {n : Nat} (hcommand : command = .serviceTerminalLength)
      (hn : screenLength? args = some n) : Change h w command args { h with lines := some n }
  | noLines : Change h w command args { h with lines := .none }
  | password {secret : Secret} (hsecret : h.Admits w args secret) :
      Change h w command args { h with password := some secret }
  | enable {secret : Secret} (hsecret : h.Admits w args secret) :
      Change h w command args { h with enable := some secret }
  | noEnable : Change h w command args { h with enable := .none }
  | encryption {h' : Host} {w' : World φ} (hencrypt : h.enableEncryption w = (.ok h', w')) :
      Change h w command args h'
  | noEncryption : Change h w command args h.disableEncryption
  | banner {banner : Banner} (hpath : ∀ path, banner = .file path → path ∈ args) :
      Change h w command args { h with banner }
  | logging {logging : LogSettings}
      (hfile : ∀ file ∈ logging.file, file.path = args.headD "" ∨
        ∃ old ∈ h.logging.file, file.path = old.path) :
      Change h w command args { h with logging }

end Host

-- ============================================================================
-- Texts
-- ============================================================================

/-- The text holds no blank. It is a word, if it is not empty. -/
def Text.HasNoBlank (text : String) : Prop :=
  ∀ ch ∈ text.toList, isBlank ch = false

/-- What a secret is kept as. -/
def Secret.text : Secret → String
  | .plain text => text
  | .encrypted stored => stored

theorem Secret.hasNoBlank_of_encrypt {φ : Type} {s s' : Secret} {w w' : World φ}
    (h : s.encrypt w = (.ok s', w')) (hs : HasNoBlank s.text) : HasNoBlank s'.text := by
  rcases encrypt_cases h with ⟨text, stored, salts, rfl, rfl, hstored⟩ | ⟨stored, rfl, rfl⟩
  · obtain ⟨salt, -, rfl⟩ := StoredPassword.exists_salt_of_encrypt hstored
    exact (isWord_encryptWith text salt.bytes).2
  · exact hs

namespace Host

variable {φ : Type} {h h' : Host} {w : World φ} {command : Builtin} {args : List String}

/-- No text among the settings holds a blank. -/
structure HasNoBlanks (h : Host) : Prop where
  name : ∀ name ∈ h.name, HasNoBlank name
  password : ∀ secret ∈ h.password, HasNoBlank secret.text
  enable : ∀ secret ∈ h.enable, HasNoBlank secret.text
  banner : ∀ path, h.banner = .file path → HasNoBlank path
  logFile : ∀ file ∈ h.logging.file, HasNoBlank file.path

theorem HasNoBlanks.empty : HasNoBlanks {} := by
  refine ⟨?_, ?_, ?_, ?_, ?_⟩ <;> simp

theorem Admits.hasNoBlank {secret : Secret} (hsecret : h.Admits w args secret)
    (hargs : ∀ w ∈ args, IsWord w) : HasNoBlank secret.text := by
  cases hsecret with
  | stored htext => exact (hargs _ htext).2
  | typed htext hsecret =>
    unfold secretFor at hsecret
    split at hsecret
    · exact Secret.hasNoBlank_of_encrypt hsecret (hargs _ htext).2
    · cases hsecret
      exact (hargs _ htext).2

theorem HasNoBlanks.encryptSecret {s s' : Option Secret} {w' : World φ}
    (hs : Host.encryptSecret s w = (.ok s', w')) (h : ∀ secret ∈ s, HasNoBlank secret.text) :
    ∀ secret ∈ s', HasNoBlank secret.text := by
  rcases encryptSecret_cases hs with ⟨-, rfl⟩ | ⟨secret, secret', rfl, rfl, hencrypt⟩
  · simp
  · rintro found ⟨⟩
    exact Secret.hasNoBlank_of_encrypt hencrypt (h secret rfl)

theorem headD_hasNoBlank (hargs : ∀ w ∈ args, IsWord w) : HasNoBlank (args.headD "") := by
  cases args with
  | nil => simp [HasNoBlank]
  | cons w rest => exact (hargs w List.mem_cons_self).2

/-- Words give no setting a blank. -/
theorem Change.hasNoBlanks (hchange : h.Change w command args h')
    (hargs : ∀ w ∈ args, IsWord w) (hh : h.HasNoBlanks) : h'.HasNoBlanks := by
  cases hchange with
  | same => exact hh
  | name hname =>
    refine { hh with name := ?_ }
    rintro found ⟨⟩
    exact (hargs _ hname).2
  | noName => exact { hh with name := by simp }
  | lines | noLines => exact { hh with }
  | password hsecret =>
    refine { hh with password := ?_ }
    rintro found ⟨⟩
    exact hsecret.hasNoBlank hargs
  | enable hsecret =>
    refine { hh with enable := ?_ }
    rintro found ⟨⟩
    exact hsecret.hasNoBlank hargs
  | noEnable => exact { hh with enable := by simp }
  | encryption hencrypt =>
    rcases enableEncryption_cases hencrypt with
      ⟨-, rfl⟩ | ⟨password, enable, w₁, hpassword, henable, rfl⟩
    · exact hh
    · exact
        { hh with
          password := HasNoBlanks.encryptSecret hpassword hh.password
          enable := HasNoBlanks.encryptSecret henable hh.enable }
  | noEncryption =>
    unfold disableEncryption
    split
    · exact
        { hh with
          password := fun secret hsecret =>
            hh.password secret (Option.mem_filter_iff.1 hsecret).1
          enable := fun secret hsecret =>
            hh.enable secret (Option.mem_filter_iff.1 hsecret).1 }
    · exact hh
  | banner hpath => exact { hh with banner := fun path heq => (hargs _ (hpath path heq)).2 }
  | logging hfile =>
    refine { hh with logFile := fun file hmem => ?_ }
    rcases hfile file hmem with hpath | ⟨old, hold, hpath⟩ <;> rw [hpath]
    · exact headD_hasNoBlank hargs
    · exact hh.logFile old hold

end Host

-- ============================================================================
-- Commands of the library
-- ============================================================================

theorem headD_mem_of_head {args : List String} {p : Char → Bool}
    (h : (args.headD "").toList.head?.any p) : args.headD "" ∈ args := by
  cases args with
  | nil => simp at h
  | cons w rest => exact List.mem_cons_self

namespace Console

open Host

variable {σ κ φ : Type}

theorem admits_of_typedSecret {c c' : Console σ κ φ} {args : List String} {secret : Secret}
    (h : c.typedSecret args = (.accepted secret, c')) : c.host.Admits c.world args secret := by
  unfold typedSecret at h
  split at h
  · split at h
    · cases h
      exact .stored (by simp)
    · cases h
  · dsimp only at h
    split at h
    · cases h
    · rename_i hhead
      cases hsecret : c.host.secretFor (args.headD "") c.world with
      | mk result w =>
        rw [hsecret] at h
        cases result with
        | error e => cases h
        | ok found =>
          cases h
          exact .typed (headD_mem_of_head (by simpa using hhead)) hsecret

theorem setSecret_cases (c : Console σ κ φ) (args : List String)
    (keep : Secret → Host → Host) :
    (c.setSecret args keep).2.host = c.host ∨ ∃ secret, c.host.Admits c.world args secret ∧
      (c.setSecret args keep).2.host = keep secret c.host := by
  obtain ⟨world, hkeeps⟩ := c.typedSecret_keeps args
  unfold setSecret
  cases htyped : c.typedSecret args with
  | mk typed c' =>
    rw [htyped] at hkeeps
    obtain rfl : c' = { c with world } := hkeeps
    cases typed with
    | accepted secret => exact .inr ⟨secret, admits_of_typedSecret htyped, rfl⟩
    | refused complaint => exact .inl rfl

theorem encryptPasswords_change (c : Console σ κ φ) (command : Builtin) (args : List String) :
    c.host.Change c.world command args c.encryptPasswords.2.host := by
  unfold encryptPasswords
  cases hencrypt : c.host.enableEncryption c.world with
  | mk result w =>
    cases result with
    | ok host => exact .encryption hencrypt
    | error e => exact .same

variable [FileStore φ]

theorem setLogging_change (c : Console σ κ φ) (command : Builtin) {args : List String}
    {edit : LogSettings → LogSettings}
    (hfile : ∀ file ∈ (edit c.host.logging).file, file.path = args.headD "" ∨
      ∃ old ∈ c.host.logging.file, file.path = old.path) :
    c.host.Change c.world command args (c.setLogging edit).2.host := by
  unfold setLogging
  dsimp only
  split
  · exact .logging hfile
  · exact .same

theorem setDestination_change (c : Console σ κ φ) (command : Builtin) {args : List String}
    (word : Option String) {edit : Severity → LogSettings → LogSettings}
    (hfile : ∀ severity, ∀ file ∈ (edit severity c.host.logging).file,
      file.path = args.headD "" ∨ ∃ old ∈ c.host.logging.file, file.path = old.path) :
    c.host.Change c.world command args (c.setDestination word edit).2.host := by
  unfold setDestination
  split
  · exact c.setLogging_change command (hfile _)
  · exact .same

end Console

namespace Program

open Host

variable {σ κ φ : Type} [FileStore φ]

/-- Each command of the library makes one change, or none. -/
theorem runBuiltin_change (p : Program σ κ) (command : Builtin) (args : List String)
    (c : Console σ κ φ) :
    c.host.Change c.world command args (p.runBuiltin command args c).2.host := by
  have hkept : ∀ file ∈ c.host.logging.file, file.path = args.headD "" ∨
      ∃ old ∈ c.host.logging.file, file.path = old.path :=
    fun file hfile => .inr ⟨file, hfile, rfl⟩
  cases hcommand : command <;> simp only [runBuiltin]
  case exit =>
    rw [p.host_exit]
    exact .same
  case leave =>
    rw [p.host_leaveConfig]
    exact .same
  case writeFile =>
    rw [p.host_writeFile]
    exact .same
  case showStartup =>
    rw [c.host_showSaved]
    exact .same
  case terminalLength =>
    unfold Console.setLength
    split <;> exact .same
  case serviceTerminalLength =>
    unfold Console.setLength
    split
    · rename_i n hn
      exact .lines rfl hn
    · exact .same
  case noServiceTerminalLength => exact .noLines
  case hostname =>
    split
    · rename_i hhead
      exact .name (headD_mem_of_head hhead)
    · exact .same
  case noHostname => exact .noName
  case password =>
    rcases c.setSecret_cases args fun secret h => { h with password := some secret } with
      heq | ⟨secret, hsecret, heq⟩ <;> rw [heq]
    · exact .same
    · exact .password hsecret
  case enablePassword =>
    rcases c.setSecret_cases args fun secret h => { h with enable := some secret } with
      heq | ⟨secret, hsecret, heq⟩ <;> rw [heq]
    · exact .same
    · exact .enable hsecret
  case noEnablePassword => exact .noEnable
  case encryption => exact c.encryptPasswords_change _ _
  case noEncryption => exact .noEncryption
  case bannerDefault | noBanner => exact .banner (by simp)
  case bannerFile =>
    refine .banner fun path hpath => ?_
    cases args with
    | nil => cases hpath
    | cons w rest =>
      obtain rfl : w = path := Banner.file.inj hpath
      exact List.mem_cons_self
  case logMessage =>
    cases args with
    | nil => exact .same
    | cons word message =>
      dsimp only
      split <;> exact .same
  case logStdout => exact c.setDestination_change _ _ fun _ => hkept
  case logFile =>
    refine c.setDestination_change _ _ fun severity file hfile => ?_
    cases hfile
    exact .inl rfl
  case noLogFile => exact c.setLogging_change _ (by simp)
  case logTrap =>
    cases args with
    | nil => exact .same
    | cons word rest =>
      refine c.setDestination_change _ _ fun severity file hfile => ?_
      obtain ⟨old, hold, rfl⟩ := Option.map_eq_some_iff.1 hfile
      exact .inr ⟨old, hold, rfl⟩
  case noLogStdout | noLogTrap | recordPriority | noRecordPriority =>
    exact c.setLogging_change _ hkept
  all_goals exact .same

-- ============================================================================
-- Lines
-- ============================================================================

/-- A line leaves the host as it is, or means a command of the library and makes one
    change, with words of the line as arguments. -/
theorem dispatch_change (p : Program σ κ) (words : List String) (strict : Bool)
    (c : Console σ κ φ) :
    (p.dispatch words strict c).2.host = c.host ∨
      ∃ found command, resolve (p.registry.elements c.session.node) words strict
          p.limits.arguments = .ok found ∧ found.element.spec.action = .builtin command ∧
        (∀ w ∈ found.arguments, w ∈ words) ∧
        c.host.Change c.world command found.arguments (p.dispatch words strict c).2.host := by
  rcases p.dispatch_cases words strict c with
    ⟨e, -, hrun⟩ | ⟨found, hresolve, ⟨-, hrun⟩ | ⟨-, hrun⟩⟩
  · exact .inl (by rw [hrun])
  · exact .inl (by rw [hrun])
  · rw [hrun]
    dsimp only
    rw [host_closeIfFatal]
    cases haction : found.element.spec.action with
    | builtin command =>
      rw [p.perform_of_builtin c haction]
      exact .inr ⟨found, command, hresolve, haction, (mem_of_resolve hresolve).2,
        p.runBuiltin_change command found.arguments c⟩
    | application id =>
      refine .inl ?_
      rw [perform, haction]

end Program

end RouterCli
