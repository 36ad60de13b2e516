import RouterCli.Proofs.Command.Arguments
import RouterCli.Proofs.Console.Levels
import RouterCli.Proofs.Password.Verified
import RouterCli.Proofs.Text.Words

/-!
  RouterCli.Proofs.Console.WritableHost

  The settings that a terminal can give a host, each of which a line of a
  configuration text can say (`Host.IsWritable`). A host is born with such
  settings, and every line that is typed keeps them (`execute_writable`).
-/

namespace RouterCli

open Text

-- ============================================================================
-- Secrets
-- ============================================================================

/-- A line of a configuration text gives this secret. -/
def Secret.IsWritable : Secret → Prop
  | .plain text => IsWord text ∧ text ≠ "8" ∧ text.toList.head?.any Char.isAlphanum
  | .encrypted stored => IsWord stored

theorem isBlank_of_mem_hexDigits {bytes : List UInt8} {c : Char} (h : c ∈ hexDigits bytes) :
    isBlank c = false := by
  have hsolid : ∀ n < 16, (!isBlank (hexDigit n)) = true := by decide
  have hc := isRun_hexDigits (p := fun c => !isBlank c) hsolid bytes c h
  rwa [Bool.not_eq_true'] at hc

theorem isWord_encryptWith (password : String) (salt : List UInt8) :
    IsWord (StoredPassword.encryptWith password salt) := by
  have hchars := StoredPassword.toList_encryptWith password salt
  refine ⟨?_, ?_⟩
  · intro hempty
    rw [hempty] at hchars
    simp at hchars
  · intro c hc
    rw [hchars, List.mem_append, List.mem_cons] at hc
    rcases hc with hc | rfl | hc
    · exact isBlank_of_mem_hexDigits hc
    · decide
    · exact isBlank_of_mem_hexDigits hc

section

variable {φ : Type}

/-- What comes out of encrypting is written behind an eight. -/
theorem Secret.encrypt_writable {s s' : Secret} {w w' : World φ} (h : s.IsWritable)
    (hs : s.encrypt w = (.ok s', w')) : s'.IsWritable ∧ s'.isPlain = false := by
  cases s with
  | encrypted stored =>
    cases hs
    exact ⟨h, rfl⟩
  | plain text =>
    simp only [encrypt, World.encrypt, StoredPassword.encrypt] at hs
    cases hsalt : w.salts.next with
    | mk salt salts =>
      cases salt with
      | none => simp [hsalt, Except.map] at hs
      | some salt =>
        simp only [hsalt, Except.map, Prod.mk.injEq, Except.ok.injEq] at hs
        rw [← hs.1]
        exact ⟨isWord_encryptWith text salt.bytes, rfl⟩

theorem Host.encryptSecret_writable {s s' : Option Secret} {w w' : World φ}
    (h : ∀ secret ∈ s, secret.IsWritable) (hs : Host.encryptSecret s w = (.ok s', w')) :
    ∀ secret ∈ s', secret.IsWritable ∧ secret.isPlain = false := by
  cases s with
  | none =>
    cases hs
    simp
  | some secret =>
    simp only [Host.encryptSecret] at hs
    cases hencrypt : secret.encrypt w with
    | mk result w'' =>
      cases result with
      | error e => simp [hencrypt, Except.map] at hs
      | ok secret' =>
        simp only [hencrypt, Except.map, Prod.mk.injEq, Except.ok.injEq] at hs
        intro found hfound
        rw [← hs.1, Option.mem_some_iff] at hfound
        rw [← hfound]
        exact Secret.encrypt_writable (h secret rfl) hencrypt

end

-- ============================================================================
-- Hosts
-- ============================================================================

namespace Host

/-- A configuration text gives this host its settings. -/
structure IsWritable (h : Host) : Prop where
  name : ∀ name ∈ h.name, IsWord name ∧ name.toList.head?.any Char.isAlpha
  password : ∀ secret ∈ h.password, secret.IsWritable
  enable : ∀ secret ∈ h.enable, secret.IsWritable
  /-- Where passwords are encrypted, these are. -/
  encrypted : h.encrypt → (∀ secret ∈ h.password, secret.isPlain = false) ∧
    ∀ secret ∈ h.enable, secret.isPlain = false
  lines : ∀ n ∈ h.lines, n ≤ 512
  /-- The file of the banner has a name in one word. -/
  banner : ∀ path, h.banner = .file path → IsWord path
  logFile : ∀ file ∈ h.logging.file, IsWord file.path
  /-- No command gives a host its configuration file. -/
  configFile : h.configFile = .none

/-- A password comes out in the form that the host keeps passwords in. -/
theorem secretFor_writable {φ : Type} {h : Host} {text : String} {secret : Secret}
    {w w' : World φ} (htext : (Secret.plain text).IsWritable)
    (hs : h.secretFor text w = (.ok secret, w')) :
    secret.IsWritable ∧ (h.encrypt → secret.isPlain = false) := by
  unfold secretFor at hs
  split at hs
  · obtain ⟨hwritable, hkind⟩ := Secret.encrypt_writable htext hs
    exact ⟨hwritable, fun _ => hkind⟩
  · rename_i hencrypt
    cases hs
    exact ⟨htext, fun htrue => absurd htrue hencrypt⟩

namespace IsWritable

variable {h : Host}

theorem empty : IsWritable {} := by
  refine ⟨?_, ?_, ?_, ?_, ?_, ?_, ?_, rfl⟩ <;> simp

theorem setName {name : String} (hh : h.IsWritable) (hword : IsWord name)
    (hhead : name.toList.head?.any Char.isAlpha) : IsWritable { h with name := some name } := by
  have hname : ∀ found ∈ some name, IsWord found ∧ found.toList.head?.any Char.isAlpha := by
    intro found hfound
    cases hfound
    exact ⟨hword, hhead⟩
  exact { hh with name := hname }

theorem setPassword {secret : Secret} (hh : h.IsWritable) (hsecret : secret.IsWritable)
    (hkind : h.encrypt → secret.isPlain = false) :
    IsWritable { h with password := some secret } := by
  have hpassword : ∀ found ∈ some secret, found = secret := fun found hfound =>
    (Option.some.inj hfound).symm
  exact
    { hh with
      password := fun found hfound => hpassword found hfound ▸ hsecret
      encrypted := fun hencrypt =>
        ⟨fun found hfound => hpassword found hfound ▸ hkind hencrypt,
          (hh.encrypted hencrypt).2⟩ }

theorem setEnable {secret : Secret} (hh : h.IsWritable) (hsecret : secret.IsWritable)
    (hkind : h.encrypt → secret.isPlain = false) :
    IsWritable { h with enable := some secret } := by
  have henable : ∀ found ∈ some secret, found = secret := fun found hfound =>
    (Option.some.inj hfound).symm
  exact
    { hh with
      enable := fun found hfound => henable found hfound ▸ hsecret
      encrypted := fun hencrypt =>
        ⟨(hh.encrypted hencrypt).1,
          fun found hfound => henable found hfound ▸ hkind hencrypt⟩ }

theorem noEnable (hh : h.IsWritable) : IsWritable { h with enable := .none } :=
  { hh with
    enable := by simp
    encrypted := fun hencrypt => ⟨(hh.encrypted hencrypt).1, by simp⟩ }

theorem setLines {lines : Option Nat} (hh : h.IsWritable) (hlines : ∀ n ∈ lines, n ≤ 512) :
    IsWritable { h with lines } :=
  { hh with lines := hlines }

theorem setBanner {banner : Banner} (hh : h.IsWritable)
    (hbanner : ∀ path, banner = .file path → IsWord path) : IsWritable { h with banner } :=
  { hh with banner := hbanner }

theorem setLogging {logging : LogSettings} (hh : h.IsWritable)
    (hfile : ∀ file ∈ logging.file, IsWord file.path) : IsWritable { h with logging } :=
  { hh with logFile := hfile }

theorem enableEncryption {φ : Type} {h' : Host} {w w' : World φ} (hh : h.IsWritable)
    (hs : h.enableEncryption w = (.ok h', w')) : h'.IsWritable := by
  unfold Host.enableEncryption at hs
  split at hs
  · cases hs
    exact hh
  · split at hs
    · cases hs
    · rename_i password w₁ hpassword
      split at hs
      · cases hs
      · rename_i enable w₂ henable
        cases hs
        have hpassword := encryptSecret_writable hh.password hpassword
        have henable := encryptSecret_writable hh.enable henable
        exact
          { hh with
            password := fun secret hsecret => (hpassword secret hsecret).1
            enable := fun secret hsecret => (henable secret hsecret).1
            encrypted := fun _ =>
              ⟨fun secret hsecret => (hpassword secret hsecret).2,
                fun secret hsecret => (henable secret hsecret).2⟩ }

theorem disableEncryption (hh : h.IsWritable) : h.disableEncryption.IsWritable := by
  unfold Host.disableEncryption
  split
  · exact
      { hh with
        password := fun secret hsecret =>
          hh.password secret (Option.mem_filter_iff.1 hsecret).1
        enable := fun secret hsecret => hh.enable secret (Option.mem_filter_iff.1 hsecret).1
        encrypted := fun hencrypt => Bool.noConfusion hencrypt }
  · exact hh

end IsWritable

end Host

-- ============================================================================
-- Commands
-- ============================================================================

namespace Console

variable {σ κ φ : Type}

@[simp] theorem host_set (c : Console σ κ φ) (f : Host → Host) :
    (c.set f).2.host = f c.host := rfl

@[simp] theorem host_warn (c : Console σ κ φ) (complaint : String) :
    (c.warn complaint).2.host = c.host := rfl

/-- A single word that starts with a letter or a digit can be written down, as
    it is not taken for the kind of a stored form. -/
theorem writable_plain_headD {args : List String} (hargs : ∀ w ∈ args, IsWord w)
    (height : args.head? = some "8" → args.length = 2)
    (hnot : ∀ kind stored, args ≠ [kind, stored])
    (hhead : (args.headD "").toList.head?.any Char.isAlphanum) :
    (Secret.plain (args.headD "")).IsWritable := by
  cases args with
  | nil => simp at hhead
  | cons w rest =>
    refine ⟨hargs w (by simp), ?_, hhead⟩
    intro hw
    rw [List.headD_cons] at hw
    have htwo := height (by rw [hw]; rfl)
    obtain ⟨v, hv⟩ := List.length_eq_one_iff.1 (Nat.succ.inj htwo)
    exact hnot w v (by rw [hv])

/-- A password that is accepted can be written down, in the form that passwords
    are kept in. -/
theorem typedSecret_writable {c c' : Console σ κ φ} {args : List String} {secret : Secret}
    (hargs : ∀ w ∈ args, IsWord w) (height : args.head? = some "8" → args.length = 2)
    (h : c.typedSecret args = (.accepted secret, c')) :
    secret.IsWritable ∧ (c.host.encrypt → secret.isPlain = false) := by
  unfold typedSecret at h
  split at h
  · rename_i kind stored
    split at h
    · cases h
      exact ⟨hargs stored (by simp), fun _ => rfl⟩
    · cases h
  · rename_i hnot
    dsimp only at h
    split at h
    · cases h
    · rename_i hhead
      have hplain := writable_plain_headD hargs height
        (fun kind stored heq => hnot kind stored heq) (by simpa using hhead)
      cases hsecret : c.host.secretFor (args.headD "") c.world with
      | mk result w =>
        rw [hsecret] at h
        cases result with
        | error e => cases h
        | ok found =>
          cases h
          exact Host.secretFor_writable hplain hsecret

theorem host_setSecret {c : Console σ κ φ} {args : List String} {keep : Secret → Host → Host}
    (hargs : ∀ w ∈ args, IsWord w) (height : args.head? = some "8" → args.length = 2) :
    (c.setSecret args keep).2.host = c.host ∨ ∃ secret, secret.IsWritable ∧
      (c.host.encrypt → secret.isPlain = false) ∧
      (c.setSecret args keep).2.host = keep secret c.host := by
  obtain ⟨world, hkeeps⟩ := c.typedSecret_keeps args
  unfold setSecret
  cases htyped : c.typedSecret args with
  | mk typed c' =>
    rw [htyped] at hkeeps
    have hhost : c'.host = c.host := by
      rw [show c' = { c with world } from hkeeps]
    cases typed with
    | accepted secret =>
      obtain ⟨hwritable, hkind⟩ := typedSecret_writable hargs height htyped
      exact .inr ⟨secret, hwritable, hkind, by simpa using congrArg (keep secret) hhost⟩
    | refused complaint => exact .inl (by simpa using hhost)

theorem encryptPasswords_writable {c : Console σ κ φ} (h : c.host.IsWritable) :
    c.encryptPasswords.2.host.IsWritable := by
  unfold encryptPasswords
  cases hencrypt : c.host.enableEncryption c.world with
  | mk result w =>
    cases result with
    | ok host => exact h.enableEncryption hencrypt
    | error e => exact h

variable [FileStore φ]

theorem setLogging_writable {c : Console σ κ φ} {edit : LogSettings → LogSettings}
    (h : c.host.IsWritable) (hedit : ∀ file ∈ (edit c.host.logging).file, IsWord file.path) :
    (c.setLogging edit).2.host.IsWritable := by
  unfold setLogging
  dsimp only
  split
  · exact h.setLogging hedit
  · exact h

theorem setDestination_writable {c : Console σ κ φ} {word : Option String}
    {edit : Severity → LogSettings → LogSettings} (h : c.host.IsWritable)
    (hedit : ∀ severity, ∀ file ∈ (edit severity c.host.logging).file, IsWord file.path) :
    (c.setDestination word edit).2.host.IsWritable := by
  unfold setDestination
  split
  · exact setLogging_writable h (hedit _)
  · exact h

theorem host_showSaved (c : Console σ κ φ) : c.showSaved.2.host = c.host := by
  unfold showSaved
  dsimp only
  split <;> rfl

end Console

namespace Program

variable {σ κ φ : Type} [FileStore φ]

theorem host_writeFile (p : Program σ κ) (c : Console σ κ φ) :
    (p.writeFile c).2.host = c.host := by
  obtain ⟨world, text, hkeeps⟩ := p.writeFile_keeps c
  rw [hkeeps]
  rfl

theorem host_leaveConfig (p : Program σ κ) (c : Console σ κ φ) :
    (p.leaveConfig c).host = c.host := by
  unfold leaveConfig
  split
  · rfl
  · -- The number of steps is a large literal, and nothing below depends on it.
    generalize p.climb c.app (p.ascentBound c.session) .config c.session = found
    obtain ⟨stuck, s⟩ := found
    cases stuck <;> rfl

omit [FileStore φ] in
theorem host_exit (p : Program σ κ) (c : Console σ κ φ) : (p.exit c).host = c.host := by
  unfold exit
  split_ifs <;> rfl

/-- A command whose arguments fit it leaves settings that can be written down. -/
theorem runBuiltin_writable (p : Program σ κ) {command : Builtin} {args : List String}
    {c : Console σ κ φ} (h : c.host.IsWritable) (hargs : ∀ w ∈ args, IsWord w)
    (hfit : Standard.ArgumentsFit command args) :
    (p.runBuiltin command args c).2.host.IsWritable := by
  cases command <;> simp only [runBuiltin]
  case exit => rwa [p.host_exit]
  case leave => rwa [p.host_leaveConfig]
  case writeFile => rwa [p.host_writeFile]
  case showStartup => rwa [c.host_showSaved]
  case terminalLength =>
    unfold Console.setLength
    split <;> exact h
  case serviceTerminalLength =>
    unfold Console.setLength
    split
    · rename_i n hn
      refine h.setLines fun m hm => ?_
      cases hm
      exact hfit n hn
    · exact h
  case noServiceTerminalLength => exact h.setLines (by simp)
  case hostname =>
    split
    · rename_i hhead
      refine h.setName ?_ hhead
      cases args with
      | nil => simp at hhead
      | cons w rest => exact hargs w List.mem_cons_self
    · exact h
  case noHostname => exact { h with name := by simp }
  case password =>
    rcases Console.host_setSecret hargs hfit with heq | ⟨secret, hsecret, hkind, heq⟩
    · rwa [heq]
    · rw [heq]
      exact h.setPassword hsecret hkind
  case enablePassword =>
    rcases Console.host_setSecret hargs hfit with heq | ⟨secret, hsecret, hkind, heq⟩
    · rwa [heq]
    · rw [heq]
      exact h.setEnable hsecret hkind
  case noEnablePassword => exact h.noEnable
  case encryption => exact Console.encryptPasswords_writable h
  case noEncryption => exact h.disableEncryption
  case bannerDefault => exact h.setBanner (by simp)
  case noBanner => exact h.setBanner (by simp)
  case bannerFile =>
    refine h.setBanner fun path hpath => ?_
    cases args with
    | nil => cases hpath
    | cons w rest =>
      obtain rfl : w = path := Banner.file.inj hpath
      exact hargs w List.mem_cons_self
  case logMessage =>
    cases args with
    | nil => exact h
    | cons word message =>
      dsimp only
      split <;> exact h
  case logStdout => exact Console.setDestination_writable h fun _ => h.logFile
  case logFile =>
    refine Console.setDestination_writable h fun severity file hfile => ?_
    cases hfile
    cases args with
    | nil => exact absurd rfl hfit
    | cons w rest => exact hargs w List.mem_cons_self
  case noLogFile => exact Console.setLogging_writable h (by simp)
  case logTrap =>
    cases args with
    | nil => exact h
    | cons word rest =>
      refine Console.setDestination_writable h fun severity file hfile => ?_
      obtain ⟨found, hfound, rfl⟩ := Option.map_eq_some_iff.1 hfile
      exact h.logFile found hfound
  case noLogStdout | noLogTrap | recordPriority | noRecordPriority =>
    exact Console.setLogging_writable h h.logFile
  all_goals exact h

-- ============================================================================
-- Lines
-- ============================================================================

theorem isWord_of_mem_wordsOf {body : List Char} {w : String} (h : w ∈ Line.wordsOf body) :
    IsWord w := by
  unfold Line.wordsOf at h
  split at h
  · cases h
  · cases h
  · rw [← String.toList_ofList (l := body)] at h
    exact isWord_of_mem_words h

theorem host_closeIfFatal (found : Resolved) (outcome : Outcome) (c : Console σ κ φ) :
    (closeIfFatal found outcome c).host = c.host := by
  unfold closeIfFatal
  split <;> rfl

/-- A line whose words are typed leaves settings that can be written down. -/
theorem dispatch_writable {p : Program σ κ} {app : AppInfo}
    (hregistry : p.registry = terminalRegistry app) {words : List String} {c : Console σ κ φ}
    (h : c.host.IsWritable) (hwords : ∀ w ∈ words, IsWord w) :
    (p.dispatch words false c).2.host.IsWritable := by
  unfold dispatch
  dsimp only
  split
  · exact h
  · rename_i found hfound
    rw [hregistry] at hfound
    have hargs : ∀ w ∈ found.arguments, IsWord w := fun w hw =>
      hwords w ((mem_of_resolve hfound).2 w hw)
    split
    · exact h
    · have hperform : (p.perform found c).2.host.IsWritable := by
        unfold perform
        split
        · rename_i command haction
          have hfit := Standard.argumentsFit_of_resolve (Standard.resolve_plainAt hfound) haction
          exact p.runBuiltin_writable h hargs hfit
        · exact h
      rwa [host_closeIfFatal]

theorem execute_writable {p : Program σ κ} {app : AppInfo}
    (hregistry : p.registry = terminalRegistry app) (line : String) {c : Console σ κ φ}
    (h : c.host.IsWritable) : (p.execute line c).2.host.IsWritable := by
  have hwords : ∀ w ∈ (Line.parse line).words, IsWord w := fun w hw => isWord_of_mem_wordsOf hw
  unfold execute
  dsimp only
  split_ifs
  · exact h
  · have htail : ∀ w ∈ (Line.parse line).words.tail, IsWord w := fun w hw =>
      hwords w (List.mem_of_mem_tail hw)
    have hnode : (c.mapSession (·.setNode .enable)).host.IsWritable := h
    exact dispatch_writable hregistry hnode htail
  · exact dispatch_writable hregistry h hwords

/-- Lines that are typed one after the other. -/
def executeAll (p : Program σ κ) (lines : List String) (c : Console σ κ φ) : Console σ κ φ :=
  lines.foldl (fun c line => (p.execute line c).2) c

theorem executeAll_writable {p : Program σ κ} {app : AppInfo}
    (hregistry : p.registry = terminalRegistry app) (lines : List String) {c : Console σ κ φ}
    (h : c.host.IsWritable) : (p.executeAll lines c).host.IsWritable := by
  induction lines generalizing c with
  | nil => exact h
  | cons line rest ih => exact ih (execute_writable hregistry line h)

end Program

end RouterCli
