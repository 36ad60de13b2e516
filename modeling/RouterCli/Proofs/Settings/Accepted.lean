import Mathlib.Data.List.Basic
import RouterCli.Proofs.Console.HostChange
import RouterCli.Proofs.Console.RestoredHost
import RouterCli.Proofs.Matching.FullyTyped
import RouterCli.Settings.HostSettings

/-!
  RouterCli.Proofs.Settings.Accepted

  Which settings come to a configuration text that a terminal accepts, and when it
  restores them (`HostSettings.accepted_iff`). Making the text looks at the first
  characters of the hostname and of the passwords only. A line of a configuration text
  is split at blanks, and its numbers are held against the bounds of the pattern, so
  whatever is replayed a host has a name of one word and a bounded screen length
  (`Program.replay_isPlausible`).
-/

namespace RouterCli

open Text

-- ============================================================================
-- A screen length in a configuration text
-- ============================================================================

namespace Standard

open Registry

/-- A number of lines that is accepted in a configuration text is within bounds. -/
theorem screenLength_le_of_strict {n : NodeId} {words : List String} {most : Nat} {r : Resolved}
    (h : resolve (plainAt n) words true most = .ok r)
    (haction : r.element.spec.action = .builtin .serviceTerminalLength) {lines : Nat}
    (hlines : screenLength? r.arguments = some lines) : lines ≤ 512 := by
  obtain ⟨spec, howner, hlevels⟩ := exists_owner (mem_of_resolve h).1 haction
  rw [ownersOf_serviceTerminalLength] at howner
  rw [(Installation.command.inj (List.mem_singleton.1 howner)).2,
    levels_serviceTerminalLength] at hlevels
  have hlevels := (Option.some.inj hlevels).symm
  obtain ⟨hfull, hmandatory⟩ :=
    takesInFull_of_resolve h (hasNoVararg_keywords hlevels (by decide))
  have hmost : words.length ≤ 3 := by
    have := Element.le_length_of_takesInFull hfull
    rwa [hlevels] at this
  have hleast : 3 ≤ words.length := by
    rwa [Element.mandatory, hlevels, mandatory_keywords] at hmandatory
  obtain ⟨-, -, -, hargs⟩ := exists_scan_of_resolve h
  obtain ⟨a, b, word, rfl⟩ := List.length_eq_three.1 (Nat.le_antisymm hmost hleast)
  rw [hlevels, arguments_keywords] at hargs
  rw [hargs] at hlines
  obtain ⟨atom, hatom, htaken⟩ := hfull 2 (by simp) word rfl
  have hlevel : r.element.level? 2 = some .lineCount := level?_keywords hlevels 0
  rw [Element.atomsAt, hlevel] at hatom
  obtain rfl := List.mem_singleton.1 hatom
  obtain ⟨range, ⟨⟩, hcontains⟩ := htaken
  exact le_of_accepts ((Range.accepts_iff _ word).2 hcontains) hlines

end Standard

-- ============================================================================
-- Hosts that a configuration text gives
-- ============================================================================

/-- Settings that a configuration text may give a host: no text in them holds a blank,
    and the screen length is within bounds. -/
structure Host.IsPlausible (h : Host) : Prop where
  texts : h.HasNoBlanks
  lines : ∀ n ∈ h.lines, n ≤ 512

theorem Host.IsPlausible.empty : Host.IsPlausible {} :=
  ⟨.empty, by simp⟩

/-- Of the changes only a screen length may make a host implausible. -/
theorem Host.Change.isPlausible {φ : Type} {h h' : Host} {w : World φ} {command : Builtin}
    {args : List String} (hchange : h.Change w command args h')
    (hargs : ∀ w ∈ args, IsWord w)
    (hlength : command = .serviceTerminalLength → ∀ n, screenLength? args = some n → n ≤ 512)
    (hh : h.IsPlausible) : h'.IsPlausible := by
  refine ⟨hchange.hasNoBlanks hargs hh.texts, ?_⟩
  cases hchange with
  | lines hcommand hn =>
    rintro m ⟨⟩
    exact hlength hcommand _ hn
  | noLines => simp
  | encryption hs =>
    rcases enableEncryption_cases hs with ⟨-, rfl⟩ | ⟨-, -, -, -, -, rfl⟩ <;> exact hh.lines
  | noEncryption =>
    unfold disableEncryption
    split <;> exact hh.lines
  | _ => exact hh.lines

namespace Program

variable {σ κ φ : Type} [FileStore φ] {p : Program σ κ}

theorem dispatch_isPlausible (hp : p.IsTerminal) {words : List String} {c : Console σ κ φ}
    (hwords : ∀ w ∈ words, IsWord w) (hc : c.host.IsPlausible) :
    (p.dispatch words true c).2.host.IsPlausible := by
  obtain ⟨⟨app, hregistry⟩, -⟩ := hp
  rcases p.dispatch_change words true c with
    hsame | ⟨found, command, hresolve, haction, hargs, hchange⟩
  · rwa [hsame]
  · rw [hregistry] at hresolve
    refine hchange.isPlausible (fun w hw => hwords w (hargs w hw)) ?_ hc
    rintro rfl n hn
    exact Standard.screenLength_le_of_strict (Standard.resolve_plainAt hresolve) haction hn

omit [FileStore φ] in
theorem isWord_of_parseIndented {text : String} {line : Line}
    (h : Line.parseIndented text = .ok line) : ∀ w ∈ line.words, IsWord w := by
  unfold Line.parseIndented at h
  cases hsplit : Line.splitIndent 0 text.toList with
  | error e => simp [hsplit, Except.map] at h
  | ok parts =>
    simp only [hsplit, Except.map, Except.ok.injEq] at h
    rw [← h]
    exact fun w hw => isWord_of_mem_wordsOf hw

theorem replayLine_isPlausible (hp : p.IsTerminal) (number : Nat) (text : String)
    {c : Console σ κ φ} (hc : c.host.IsPlausible) :
    (p.replayLine number text c).2.host.IsPlausible := by
  unfold replayLine
  dsimp only
  split
  · exact hc
  · rename_i line hline
    have hwords := isWord_of_parseIndented hline
    split_ifs
    · exact hc
    · exact hc
    · exact dispatch_isPlausible hp hwords hc
    · exact dispatch_isPlausible hp hwords hc

/-- Whatever is replayed, the host stays plausible. -/
theorem replay_isPlausible (hp : p.IsTerminal) (text : ConfigText) {c : Console σ κ φ}
    (hc : c.host.IsPlausible) : (p.replay text c).2.host.IsPlausible := by
  have hrun := (@forall_replayLog σ κ φ _ p (fun c => c.host.IsPlausible) (fun _ => True)
    (fun _ _ _ _ _ _ => trivial) (fun number line _ => replayLine_isPlausible hp number line)
    text.lines 1 c hc).2
  unfold replay
  generalize p.replayFrom 1 c text.lines = ran at hrun
  obtain ⟨_ | _, c'⟩ := ran
  · exact hrun
  · dsimp only
    split <;> exact hrun

end Program

-- ============================================================================
-- Hosts that settings come to
-- ============================================================================

namespace HostSettings

variable {φ : Type}

/-- A password comes out encrypted. -/
theorem secretOf_cases {password : Option String} {secret : Option Secret} {w w' : World φ}
    (h : secretOf password w = (.ok secret, w')) :
    password = none ∧ secret = none ∨ ∃ text salt, password = some text ∧
      secret = some (.encrypted (StoredPassword.encryptWith text (salt : Salt).bytes)) := by
  cases password with
  | none =>
    cases h
    exact .inl ⟨rfl, rfl⟩
  | some text =>
    refine .inr ?_
    unfold secretOf at h
    dsimp only at h
    split at h
    · cases hencrypt : (Secret.plain text).encrypt w with
      | mk result w'' =>
        rw [hencrypt] at h
        cases result with
        | error e => cases h
        | ok found =>
          cases h
          rcases Secret.encrypt_cases hencrypt with
            ⟨_, stored, salts, ⟨⟩, rfl, hstored⟩ | ⟨_, ⟨⟩, -⟩
          obtain ⟨salt, -, rfl⟩ := StoredPassword.exists_salt_of_encrypt hstored
          exact ⟨text, salt, rfl, rfl⟩
    · cases h

theorem isWritable_of_secretOf {password : Option String} {secret : Option Secret}
    {w w' : World φ} (h : secretOf password w = (.ok secret, w')) :
    ∀ found ∈ secret, found.IsWritable := by
  rcases secretOf_cases h with ⟨-, rfl⟩ | ⟨text, salt, -, rfl⟩
  · simp
  · rintro found ⟨⟩
    exact isWord_encryptWith text salt.bytes

theorem accepts_of_secretOf {password : Option String} {secret : Option Secret}
    {w w' : World φ} (h : secretOf password w = (.ok secret, w')) :
    ∀ text ∈ password, secret.any (·.accepts text) = true := by
  rcases secretOf_cases h with ⟨rfl, -⟩ | ⟨text, salt, rfl, rfl⟩
  · simp
  · rintro found ⟨⟩
    exact StoredPassword.verify_encryptWith salt.ne_nil text

/-- Settings that come to a host: the hostname starts with a letter, and the passwords
    are encrypted one after the other. -/
theorem toHost_cases {s : HostSettings} {host : Host} {w w' : World φ}
    (h : s.toHost w = (.ok host, w')) :
    (∀ name ∈ s.hostname, name.toList.head?.any Char.isAlpha) ∧
      ∃ password enable w₁, secretOf s.password w = (.ok password, w₁) ∧
        secretOf s.enablePassword w₁ = (.ok enable, w') ∧
        host = { name := s.hostname, password, enable,
                 lines := s.terminalLength.map (·.toNat) } := by
  unfold toHost at h
  split at h
  · cases h
  · rename_i hstart
    have hname : ∀ name ∈ s.hostname, name.toList.head?.any Char.isAlpha := by
      intro name hname
      rw [hname] at hstart
      simpa using hstart
    refine ⟨hname, ?_⟩
    split at h
    · cases h
    · rename_i password w₁ hpassword
      split at h
      · cases h
      · rename_i enable w₂ henable
        cases h
        exact ⟨password, enable, w₁, hpassword, henable, rfl⟩

/-- A text that starts with a letter and holds no blank is a word. -/
theorem isWord_of_head {text : String} (hhead : text.toList.head?.any Char.isAlpha)
    (h : HasNoBlank text) : IsWord text := by
  refine ⟨?_, h⟩
  rintro rfl
  exact absurd hhead (by decide)

variable {σ κ ψ : Type} [FileStore ψ]

/-- A terminal replays the text from its beginning to its end, each line to full
    success, and comes to a host with these settings. -/
structure Restores (q : Program σ κ) (fresh : Console σ κ ψ) (s : HostSettings)
    (text : ConfigText) : Prop where
  succeeds : (q.replay text fresh).1 = .ok ()
  unwarned : ∀ d ∈ q.replayLog 1 fresh text.lines, d.outcome = .ok .success
  name : (q.replay text fresh).2.host.name = s.hostname
  lines : (q.replay text fresh).2.host.lines = s.terminalLength.map (·.toNat)
  login : ∀ password ∈ s.password, (q.replay text fresh).2.host.acceptsLogin password = true
  enable : ∀ password ∈ s.enablePassword,
    (q.replay text fresh).2.host.acceptsEnable password = true

/-- The configuration text that settings come to is accepted by a terminal, and restores
    them, exactly if the hostname is one word and the screen length is within the bounds
    of its command. -/
theorem accepted_iff {s : HostSettings} {host : Host} {w w' : World φ}
    (h : s.toHost w = (.ok host, w')) {q : Program σ κ} (hq : q.IsTerminal)
    {fresh : Console σ κ ψ} (hfresh : fresh.host = {}) (hsession : fresh.session.AtMargin) :
    Restores q fresh s (.ofString host.configText) ↔
      (∀ name ∈ s.hostname, IsWord name) ∧ ∀ n ∈ s.terminalLength, n.toNat ≤ 512 := by
  obtain ⟨hhead, password, enable, w₁, hpassword, henable, hhost⟩ := toHost_cases h
  constructor
  · intro hrestores
    have hafter := Program.replay_isPlausible hq (.ofString host.configText)
      (hfresh ▸ Host.IsPlausible.empty : fresh.host.IsPlausible)
    refine ⟨fun name hname => ?_, fun n hn => ?_⟩
    · refine isWord_of_head (hhead name hname) (hafter.texts.name name ?_)
      rw [hrestores.name]
      exact hname
    · refine hafter.lines n.toNat ?_
      rw [hrestores.lines, hn]
      rfl
  · rintro ⟨hname, hlength⟩
    have hwritable : host.IsWritable := by
      rw [hhost]
      exact
        { name := fun name hmem => ⟨hname name hmem, hhead name hmem⟩
          password := isWritable_of_secretOf hpassword
          enable := isWritable_of_secretOf henable
          encrypted := fun hencrypt => nomatch hencrypt
          lines := by
            intro n hn
            obtain ⟨m, hm, rfl⟩ := Option.map_eq_some_iff.1 hn
            exact hlength m hm
          banner := by simp
          logFile := by simp
          configFile := rfl }
    have hopen : Program.Openable host.logging.file fresh.world.files := by
      rw [hhost]
      simp [Program.Openable]
    obtain ⟨world, htakes⟩ := Program.takes_configLines hq hwritable hopen
    obtain ⟨after, hreplay, hafter, hlog⟩ := Program.replay_of_takes htakes hfresh rfl hsession
    rw [← Host.configText] at hreplay hlog
    refine ⟨?_, hlog, ?_, ?_, ?_, ?_⟩ <;> rw [hreplay]
    · exact congrArg Host.name (hafter.trans hhost)
    · exact congrArg Host.lines (hafter.trans hhost)
    · rw [hafter, hhost]
      exact accepts_of_secretOf hpassword
    · rw [hafter, hhost]
      exact accepts_of_secretOf henable

/-- A name, two passwords and a screen length. -/
def bscSettings : HostSettings where
  hostname := some "bsc-1"
  password := some "foo"
  enablePassword := some "bar"
  terminalLength := some 24

/-- Salts for two passwords. -/
def saltedWorld : World FileTree where
  files := FileTree.empty
  salts := .ofBytes (List.replicate (2 * saltLength) 7)

theorem accepted_iff_bscSettings :
    ∃ host w, bscSettings.toHost saltedWorld = (.ok host, w) ∧
      Restores Program.plainTerminal Program.plainConsole bscSettings
        (.ofString host.configText) := by
  have hok : (bscSettings.toHost saltedWorld).1.isOk = true := by decide +kernel
  cases h : bscSettings.toHost saltedWorld with
  | mk result w =>
    rw [h] at hok
    cases result with
    | error e => cases hok
    | ok host =>
      refine ⟨host, w, rfl, (accepted_iff h ⟨⟨_, rfl⟩, rfl⟩ rfl ⟨rfl, rfl, .inl rfl⟩).2 ⟨?_, ?_⟩⟩
      · rintro name ⟨⟩
        decide
      · rintro n ⟨⟩
        decide

/-- A screen length of a thousand lines is written down and not accepted. -/
theorem not_forall_restores :
    ¬ ∀ (s : HostSettings) (host : Host) (w w' : World FileTree),
      s.toHost w = (.ok host, w') → Restores Program.plainTerminal Program.plainConsole s
        (.ofString host.configText) := by
  intro hall
  have hrestores := hall { terminalLength := some 1000 } _ saltedWorld saltedWorld rfl
  have hafter := Program.replay_isPlausible (p := Program.plainTerminal) ⟨⟨_, rfl⟩, rfl⟩
    (.ofString (Host.configText { lines := some 1000 })) (c := Program.plainConsole) .empty
  exact absurd (hafter.lines 1000 hrestores.lines) (by decide)

end HostSettings

end RouterCli
