import Mathlib.Data.List.Infix
import RouterCli.Proofs.Console.Standing
import RouterCli.Proofs.Shell.Effects

/-!
  RouterCli.Proofs.Shell.Lockout

  A shell locks out whoever does not know the password (`Shell.feed_lockout`). On a terminal
  that takes everything a character makes one thing of the session
  (`Shell.sessionBehind`, `Shell.settles_process`): it counts a wrong password, forgets the
  count where the prompt is left, and touches it nowhere else. So there is no count off the
  prompts, and a session that goes on has one below the limit (`Shell.OnGuard`). Along a stay
  at a prompt the count is the number of lines that were rejected there
  (`Shell.IsStay.authFailures_eq`).
-/

namespace RouterCli

/-- One of the two password prompts. -/
def NodeId.isPrompt (n : NodeId) : Bool :=
  n == .auth || n == .authEnable

theorem NodeId.isPrompt_iff {n : NodeId} : n.isPrompt = true ↔ n = .auth ∨ n = .authEnable := by
  simp [isPrompt]

namespace Shell

variable {σ κ φ : Type} {α : Type}

-- ============================================================================
-- Work that is finished
-- ============================================================================

namespace OnlyWrites

variable {m : ShellWork σ κ φ Unit}

theorem run_eq (hm : OnlyWrites m) (sh : Shell σ κ φ) (hopen : sh.terminal.IsOpen) :
    ∃ terminal : Terminal, terminal.IsOpen ∧ run m sh = (.ok (), { sh with terminal }) := by
  obtain ⟨terminal, hafter, -, hgoes⟩ := hm sh
  obtain ⟨hopen', hdone⟩ := hgoes hopen
  exact ⟨terminal, hopen', Prod.ext hdone hafter⟩

theorem run_bind (hm : OnlyWrites m) (sh : Shell σ κ φ) (hopen : sh.terminal.IsOpen)
    (f : Unit → ShellWork σ κ φ α) :
    ∃ terminal : Terminal, terminal.IsOpen ∧
      run (m >>= f) sh = run (f ()) { sh with terminal } := by
  obtain ⟨terminal, hopen', hrun⟩ := hm.run_eq sh hopen
  refine ⟨terminal, hopen', ?_⟩
  rw [Shell.run_bind, hrun]

end OnlyWrites

-- ============================================================================
-- The count
-- ============================================================================

/-- The session behind a line at a password prompt. -/
def judged (limit : Nat) (s : Session κ) (accepted : Bool) : Session κ :=
  if accepted then s.resetAuthFailures.setNode (if s.node = .auth then .view else .enable)
  else if s.authFailures + 1 < limit then s.recordAuthFailure
  else if s.node = .auth then s.recordAuthFailure.close
  else s.resetAuthFailures.setNode .view

/-- The shell has gone on with a session, or has closed with it. -/
structure Settles (s : Session κ) (sh : Shell σ κ φ) : Prop where
  session : sh.console.session = s
  phase : sh.phase = if s.closing then .closed else .active
  opened : sh.terminal.IsOpen

theorem Settles.of_same (sh : Shell σ κ φ) {sh' : Shell σ κ φ} (hactive : sh.phase = .active)
    (hgoes : sh.console.session.closing = false) (hconsole : sh'.console = sh.console)
    (hphase : sh'.phase = sh.phase) (hopen : sh'.terminal.IsOpen) :
    Settles sh.console.session sh' where
  session := congrArg (·.session) hconsole
  phase := by rw [hphase, hactive, hgoes]; rfl
  opened := hopen

/-- What a rejected line comes to, by the count it makes. -/
theorem Settles.rejected {limit : Nat} {s : Session κ} {now : Shell σ κ φ}
    (h : Settles (judged limit s false) now) (hgoes : s.closing = false) :
    (s.authFailures + 1 < limit →
      now.console.session.node = s.node ∧
        now.console.session.authFailures = s.authFailures + 1 ∧ now.phase = .active) ∧
    (s.authFailures + 1 = limit →
      if s.node = .auth then now.phase = .closed
      else
        now.console.session.node = .view ∧ now.console.session.authFailures = 0 ∧
          now.phase = .active) := by
  obtain ⟨hsession, hphase, -⟩ := h
  have hactive : (if s.closing then ShellPhase.closed else .active) = .active := by
    rw [hgoes]
    rfl
  rw [judged, if_neg Bool.false_ne_true] at hsession hphase
  constructor
  · intro hbelow
    rw [if_pos hbelow] at hsession hphase
    rw [hsession]
    exact ⟨rfl, rfl, hphase.trans hactive⟩
  · intro hends
    rw [if_neg (Nat.not_lt.2 (Nat.le_of_eq hends.symm))] at hsession hphase
    by_cases hauth : s.node = .auth
    · rw [if_pos hauth] at hphase ⊢
      exact hphase
    · rw [if_neg hauth] at hsession hphase ⊢
      rw [hsession]
      exact ⟨rfl, rfl, hphase.trans hactive⟩

/-- Wrong passwords are counted at a prompt only, and a session that goes on has counted
    fewer than the limit. -/
structure IsGuarded (limit : Nat) (s : Session κ) : Prop where
  counted : s.node.isPrompt = true ∨ s.authFailures = 0
  below : s.closing = true ∨ s.authFailures < limit

theorem IsGuarded.of_eq_zero {limit : Nat} (hlimit : 0 < limit) {s : Session κ}
    (h : s.authFailures = 0) : IsGuarded limit s :=
  ⟨.inr h, .inr (h ▸ hlimit)⟩

variable {p : Program σ κ} {sh : Shell σ κ φ}

/-- The terminal takes everything, and the session is guarded and goes on as long as the
    shell does. -/
structure OnGuard (p : Program σ κ) (sh : Shell σ κ φ) : Prop where
  opened : sh.terminal.IsOpen
  guarded : IsGuarded p.limits.authFailures sh.console.session
  goes : sh.phase = .active → sh.console.session.closing = false

theorem OnGuard.authFailures_lt (h : OnGuard p sh) (hactive : sh.phase = .active) :
    sh.console.session.authFailures < p.limits.authFailures :=
  h.guarded.below.resolve_left (by simp [h.goes hactive])

/-- Editing is no affair of the session. -/
theorem console_edited (p : Program σ κ) (sh : Shell σ κ φ) (event : InputEvent) :
    (edited p sh event).console = sh.console ∧ (edited p sh event).phase = sh.phase := by
  cases event with
  | none | char c | backspace | enter | doubleEscape | interrupt | endOfInput | killLine =>
    exact ⟨rfl, rfl⟩
  | suspend | help | tab | down =>
    dsimp only [edited]
    split_ifs <;> exact ⟨rfl, rfl⟩
  | up =>
    dsimp only [edited]
    split_ifs
    · exact ⟨rfl, rfl⟩
    · split <;> exact ⟨rfl, rfl⟩

-- ============================================================================
-- The session behind a character
-- ============================================================================

variable [FileStore φ]

/-- What an event makes of the session of a shell. -/
def sessionBehind (p : Program σ κ) (sh : Shell σ κ φ) : InputEvent → Session κ
  | .enter =>
    if sh.atPasswordPrompt then
      judged p.limits.authFailures sh.console.session
        (acceptsAt sh.console.host sh.console.session.node sh.buffer)
    else (p.execute sh.buffer sh.console).2.session.takeOutput.2
  | .suspend =>
    if sh.atPasswordPrompt then sh.console.session else (p.leaveConfig sh.console).session
  | .endOfInput =>
    if sh.buffer.isEmpty then (p.exit sh.console).session else sh.console.session
  | _ => sh.console.session

theorem settles_closeOrPrompt (p : Program σ κ) (sh : Shell σ κ φ) (hactive : sh.phase = .active)
    (hopen : sh.terminal.IsOpen) :
    Settles sh.console.session (after (closeOrPrompt p) sh) := by
  unfold closeOrPrompt
  rw [after_get_bind]
  cases hclosing : sh.console.session.closing with
  | true =>
    rw [if_pos rfl]
    exact ⟨rfl, by rw [hclosing]; rfl, hopen⟩
  | false =>
    rw [if_neg Bool.false_ne_true]
    obtain ⟨terminal, hopen', hrun⟩ := (OnlyWrites.writePrompt p).run_eq sh hopen
    unfold after
    rw [hrun]
    exact .of_same sh hactive hclosing rfl rfl hopen'

theorem run_rejectPassword (p : Program σ κ) (sh : Shell σ κ φ) (hopen : sh.terminal.IsOpen) :
    ∃ (console : Console σ κ φ) (terminal : Terminal), terminal.IsOpen ∧
      console.session = judged p.limits.authFailures sh.console.session false ∧
      run (rejectPassword p) sh = (.ok (), { sh with console, terminal }) := by
  let counted := sh.mapSession (·.recordAuthFailure)
  unfold rejectPassword judged
  rw [run_modify_bind, run_get_bind, if_neg Bool.false_ne_true]
  dsimp only
  by_cases hbelow : sh.console.session.authFailures + 1 < p.limits.authFailures
  · have hgoes : ¬ p.limits.authFailures ≤ counted.console.session.authFailures :=
      Nat.not_le.2 hbelow
    rw [if_pos hbelow, if_neg hgoes]
    exact ⟨counted.console, sh.terminal, hopen, rfl, rfl⟩
  · have hends : p.limits.authFailures ≤ counted.console.session.authFailures :=
      Nat.not_lt.1 hbelow
    rw [if_neg hbelow, if_pos hends]
    by_cases hauth : sh.console.session.node = .auth
    · have hauth' : counted.console.session.node = .auth := hauth
      rw [if_pos hauth, if_pos hauth', run_modify_bind]
      let logged := counted.mapConsole (·.log .info "too many failed logins")
      obtain ⟨terminal, hopen', hrun⟩ :=
        (OnlyWrites.write "% Bad passwords, too many failures!\r\n").run_bind logged hopen
          fun _ => modifyThe (Shell σ κ φ) (·.mapSession (·.close))
      exact ⟨_, terminal, hopen', rfl, hrun⟩
    · have hauth' : ¬ counted.console.session.node = .auth := hauth
      rw [if_neg hauth, if_neg hauth']
      obtain ⟨terminal, hopen', hrun⟩ :=
        (OnlyWrites.write "% Bad enable passwords, too many failures!\r\n").run_bind
          counted hopen fun _ =>
            modifyThe (Shell σ κ φ)
              (·.mapSession fun s => s.resetAuthFailures.setNode .view)
      exact ⟨_, terminal, hopen', rfl, hrun⟩

theorem run_takeVerdict (p : Program σ κ) (accepted : Bool) (sh : Shell σ κ φ)
    (hopen : sh.terminal.IsOpen) :
    ∃ (console : Console σ κ φ) (terminal : Terminal), terminal.IsOpen ∧
      console.session = judged p.limits.authFailures sh.console.session accepted ∧
      run (takeVerdict p accepted) sh = (.ok (), { sh with console, terminal }) := by
  cases accepted with
  | true => exact ⟨sh.acceptPassword.console, sh.terminal, hopen, rfl, rfl⟩
  | false => exact run_rejectPassword p sh hopen

/-- A line at a password prompt. -/
theorem settles_conclude (p : Program σ κ) (accepted : Bool) (sh : Shell σ κ φ)
    (hactive : sh.phase = .active) (hopen : sh.terminal.IsOpen) :
    Settles (judged p.limits.authFailures sh.console.session accepted)
      (after (conclude p accepted) sh) := by
  obtain ⟨t, hopen, hbreak⟩ := OnlyWrites.writeBreak.run_eq sh hopen
  obtain ⟨console, t', hopen', hsession, hverdict⟩ :=
    run_takeVerdict p accepted { sh with terminal := t } hopen
  unfold conclude
  rw [after_bind_of_run hbreak, after_bind_of_run hverdict, ← hsession]
  exact settles_closeOrPrompt p { sh with console, terminal := t' } hactive hopen'

/-- The shell with a line run, but for what is written. -/
def ran (p : Program σ κ) (sh : Shell σ κ φ) (input : String) : Shell σ κ φ :=
  { sh with
    history := sh.history.add input
    console := (p.execute input sh.console).2.mapSession fun s => s.takeOutput.2 }

theorem run_runLine (p : Program σ κ) (input : String) (sh : Shell σ κ φ)
    (hopen : sh.terminal.IsOpen) :
    ∃ terminal : Terminal, terminal.IsOpen ∧
      run (runLine p input) sh = (.ok (), { ran p sh input with terminal }) := by
  unfold runLine
  rw [run_get_bind]
  dsimp only
  rw [run_set_bind]
  refine (OnlyWrites.bind (.writeText _) (.breakUnless ?_ _)).run_eq (ran p sh input) hopen
  split
  · exact .pure
  · split
    · exact .pure
    · exact .bind (.write _) .writeBreak

theorem settles_enter (p : Program σ κ) (sh : Shell σ κ φ) (hactive : sh.phase = .active)
    (hopen : sh.terminal.IsOpen) :
    Settles (sessionBehind p sh .enter) (after (enter p) sh) := by
  unfold sessionBehind
  dsimp only
  cases hprompt : sh.atPasswordPrompt with
  | true =>
    rw [if_pos rfl, after_enter_of_prompt p hprompt]
    exact settles_conclude p _ sh.clearBuffer hactive hopen
  | false =>
    rw [if_neg Bool.false_ne_true]
    obtain ⟨t, hopen, hbreak⟩ := OnlyWrites.writeBreak.run_eq sh.clearBuffer hopen
    obtain ⟨t', hopen', hline⟩ :=
      run_runLine p sh.buffer { sh.clearBuffer with terminal := t } hopen
    unfold enter
    rw [after_get_bind, after_set_bind, after_bind_of_run hbreak, hprompt,
      if_neg Bool.false_ne_true, after_bind_of_run hline]
    exact settles_closeOrPrompt p
      { ran p sh.clearBuffer sh.buffer with terminal := t' } hactive hopen'

theorem settles_suspend (p : Program σ κ) (sh : Shell σ κ φ) (hactive : sh.phase = .active)
    (hgoes : sh.console.session.closing = false) (hopen : sh.terminal.IsOpen) :
    Settles (sessionBehind p sh .suspend) (after (suspend p) sh) := by
  unfold sessionBehind suspend
  rw [after_get_bind]
  dsimp only
  cases hprompt : sh.atPasswordPrompt with
  | true => exact .of_same sh hactive hgoes rfl rfl hopen
  | false =>
    let left : Shell σ κ φ := { sh with
      buffer := "", history := sh.history.resetPosition, console := p.leaveConfig sh.console }
    have hstanding : left.console.session.closing = false :=
      (Session.closing_eq_of_standing (p.standing_leaveConfig sh.console)).trans hgoes
    obtain ⟨t, hopen, hbreak⟩ := OnlyWrites.writeBreak.run_eq
      { sh with buffer := "", history := sh.history.resetPosition } hopen
    obtain ⟨t', hopen', hwrites⟩ :=
      (OnlyWrites.writePrompt p).run_eq { left with terminal := t } hopen
    have hrun : after (do
        modifyThe (Shell σ κ φ) fun sh =>
          { sh with buffer := "", history := sh.history.resetPosition }
        writeBreak
        modifyThe (Shell σ κ φ) (·.mapConsole p.leaveConfig)
        writePrompt p) sh = { left with terminal := t' } := by
      rw [after_modify_bind, after_bind_of_run hbreak, after_modify_bind]
      exact congrArg Prod.snd hwrites
    show Settles _ (after _ sh)
    rw [if_neg Bool.false_ne_true]
    exact hrun ▸ .of_same left hactive hstanding rfl rfl hopen'

theorem settles_endOfInput (p : Program σ κ) (sh : Shell σ κ φ) (hactive : sh.phase = .active)
    (hgoes : sh.console.session.closing = false) (hopen : sh.terminal.IsOpen) :
    Settles (sessionBehind p sh .endOfInput) (after (endOfInput p) sh) := by
  unfold sessionBehind endOfInput
  rw [after_get_bind]
  dsimp only
  split_ifs
  · obtain ⟨t, hopen, hbreak⟩ := OnlyWrites.writeBreak.run_eq sh hopen
    rw [after_bind_of_run hbreak, after_modify_bind]
    exact settles_closeOrPrompt p
      { sh with terminal := t, console := p.exit sh.console } hactive hopen
  · exact .of_same sh hactive hgoes rfl rfl hopen

/-- On a terminal that takes everything, an event makes one thing of the session. -/
theorem settles_handle (p : Program σ κ) (sh : Shell σ κ φ) (event : InputEvent)
    (hactive : sh.phase = .active) (hgoes : sh.console.session.closing = false)
    (hopen : sh.terminal.IsOpen) :
    Settles (sessionBehind p sh event) (after (handle p event) sh) := by
  by_cases hedit : event ∉ [.enter, .suspend, .endOfInput]
  · obtain ⟨terminal, hafter, hopen'⟩ := handle_leadsTo p sh hedit
    obtain ⟨hconsole, hphase⟩ := console_edited p sh event
    have hsame : sessionBehind p sh event = sh.console.session := by
      cases event with
      | enter | suspend | endOfInput => simp at hedit
      | _ => rfl
    rw [hafter, hsame]
    exact .of_same sh hactive hgoes hconsole hphase (hopen' hopen)
  · cases event with
    | enter => exact settles_enter p sh hactive hopen
    | suspend => exact settles_suspend p sh hactive hgoes hopen
    | endOfInput => exact settles_endOfInput p sh hactive hgoes hopen
    | _ => simp at hedit

theorem settles_process (p : Program σ κ) (sh : Shell σ κ φ) (c : Char)
    (hactive : sh.phase = .active) (hgoes : sh.console.session.closing = false)
    (hopen : sh.terminal.IsOpen) :
    Settles (sessionBehind p sh (sh.decoder.feed c).1) (after (process p c) sh) := by
  let heard : Shell σ κ φ := { sh with decoder := (sh.decoder.feed c).2 }
  have hsame : sessionBehind p heard (sh.decoder.feed c).1 =
      sessionBehind p sh (sh.decoder.feed c).1 := by
    cases (sh.decoder.feed c).1 <;> rfl
  rw [after_process, if_pos hactive, ← hsame]
  exact settles_handle p heard _ hactive hgoes hopen

/-- What an event does to the count. A line is rejected at a prompt; or the count stays, and
    at a prompt the session does too; or a line is accepted there, and the count is gone. -/
theorem sessionBehind_cases (hkeeps : p.application.KeepsFailures) (sh : Shell σ κ φ)
    (event : InputEvent) :
    let s := sh.console.session
    let s' := sessionBehind p sh event
    (s.node.isPrompt = true ∧ event = .enter ∧
        acceptsAt sh.console.host s.node sh.buffer = false ∧
        s' = judged p.limits.authFailures s false) ∨
      (s'.authFailures = s.authFailures ∧
        (s.node.isPrompt = true → event ≠ .enter ∧ s'.node = s.node)) ∨
      (acceptsAt sh.console.host s.node sh.buffer = true ∧ s'.node ≠ s.node ∧
        s'.authFailures = 0) := by
  intro s s'
  have hsame : event ≠ .enter → s' = s →
      s'.authFailures = s.authFailures ∧
        (s.node.isPrompt = true → event ≠ .enter ∧ s'.node = s.node) := by
    intro hevent h
    rw [h]
    exact ⟨rfl, fun _ => ⟨hevent, rfl⟩⟩
  cases event with
  | enter =>
    cases hprompt : sh.atPasswordPrompt with
    | true =>
      have hs' : s' = judged p.limits.authFailures s
          (acceptsAt sh.console.host s.node sh.buffer) := if_pos hprompt
      cases haccepted : acceptsAt sh.console.host s.node sh.buffer with
      | false => exact .inl ⟨hprompt, rfl, rfl, haccepted ▸ hs'⟩
      | true =>
        rw [hs', haccepted]
        refine .inr (.inr ⟨rfl, ?_, rfl⟩)
        show (if s.node = .auth then NodeId.view else .enable) ≠ s.node
        rcases NodeId.isPrompt_iff.1 hprompt with hnode | hnode <;> rw [hnode] <;> decide
    | false =>
      have hs' : s' = (p.execute sh.buffer sh.console).2.session.takeOutput.2 :=
        if_neg (by simp [hprompt])
      refine .inr (.inl ⟨?_, fun h => absurd (h.symm.trans hprompt) (by decide)⟩)
      rw [hs']
      exact p.authFailures_execute hkeeps sh.buffer sh.console
  | suspend =>
    cases hprompt : sh.atPasswordPrompt with
    | true => exact .inr (.inl (hsame nofun (if_pos hprompt)))
    | false =>
      have hs' : s' = (p.leaveConfig sh.console).session := if_neg (by simp [hprompt])
      refine .inr (.inl ⟨?_, fun h => absurd (h.symm.trans hprompt) (by decide)⟩)
      rw [hs']
      exact Session.authFailures_eq_of_standing (p.standing_leaveConfig sh.console)
  | endOfInput =>
    cases hempty : sh.buffer.isEmpty with
    | false => exact .inr (.inl (hsame nofun (if_neg (by simp [hempty]))))
    | true =>
      have hs' : s' = (p.exit sh.console).session := if_pos hempty
      rw [hs']
      refine .inr (.inl ⟨p.authFailures_exit sh.console, fun hprompt => ⟨nofun, ?_⟩⟩)
      have hbelow : s.node.value < NodeId.enable.value := by
        rcases NodeId.isPrompt_iff.1 hprompt with hnode | hnode <;> rw [hnode] <;> decide
      exact (p.exit_of_below hbelow).2
  | _ => exact .inr (.inl (hsame nofun rfl))

theorem process_of_not_active (h : sh.phase ≠ .active) (c : Char) :
    after (process p c) sh = sh := by
  rw [after_process, if_neg h]

theorem OnGuard.settles (h : OnGuard p sh) (hactive : sh.phase = .active) (c : Char) :
    Settles (sessionBehind p sh (sh.decoder.feed c).1) (after (process p c) sh) :=
  settles_process p sh c hactive (h.goes hactive) h.opened

theorem OnGuard.process (hkeeps : p.application.KeepsFailures)
    (hlimit : 0 < p.limits.authFailures) (h : OnGuard p sh) (c : Char) :
    OnGuard p (after (Shell.process p c) sh) := by
  by_cases hactive : sh.phase = .active
  · obtain ⟨hsession, hphase, hopen⟩ := h.settles hactive c
    refine ⟨hopen, ?_, ?_⟩
    · rw [hsession]
      rcases sessionBehind_cases hkeeps sh (sh.decoder.feed c).1 with
        ⟨hprompt, -, -, hrejected⟩ | ⟨hcount, hstays⟩ | ⟨-, -, hcount⟩
      · rw [hrejected, judged, if_neg Bool.false_ne_true]
        split_ifs with hbelow hauth
        · exact ⟨.inl hprompt, .inr hbelow⟩
        · exact ⟨.inl hprompt, .inl rfl⟩
        · exact .of_eq_zero hlimit rfl
      · refine ⟨?_, .inr (hcount ▸ h.authFailures_lt hactive)⟩
        rcases h.guarded.counted with hprompt | hzero
        · exact .inl ((hstays hprompt).2 ▸ hprompt)
        · exact .inr (hcount.trans hzero)
      · exact .of_eq_zero hlimit hcount
    · intro hgoes
      rw [hsession]
      by_contra hcloses
      rw [hphase, if_pos (by simpa using hcloses)] at hgoes
      cases hgoes
  · rw [process_of_not_active hactive]
    exact h

theorem OnGuard.feed (hkeeps : p.application.KeepsFailures)
    (hlimit : 0 < p.limits.authFailures) (h : OnGuard p sh) (typed : List Char) :
    OnGuard p (Shell.feed p sh typed) := by
  induction typed generalizing sh with
  | nil => exact h
  | cons c rest ih => exact ih (h.process hkeeps hlimit c)

theorem OnGuard.activate (hlimit : 0 < p.limits.authFailures) (hopen : sh.terminal.IsOpen) :
    OnGuard p (after (Shell.activate p) sh) ∧
      (after (Shell.activate p) sh).console.session.authFailures = 0 := by
  let host := sh.console.host
  let started : Shell σ κ φ := { sh with
    console := { sh.console with session := { node := startNode host, lines := host.lines } }
    buffer := ""
    decoder := {}
    history := sh.history.resetPosition
    phase := .active }
  have hwrites : ∃ terminal : Terminal, terminal.IsOpen ∧
      after (Shell.activate p) sh = { started with terminal } := by
    have hends : ∀ m : ShellWork σ κ φ Unit, OnlyWrites m →
        ∃ terminal : Terminal, terminal.IsOpen ∧ after m started = { started with terminal } := by
      intro m hm
      obtain ⟨terminal, hopen', hrun⟩ := hm.run_eq started hopen
      exact ⟨terminal, hopen', congrArg Prod.snd hrun⟩
    unfold Shell.activate
    rw [after_modify_bind, after_get_bind]
    dsimp only
    split
    · exact hends _ (.writePrompt p)
    · exact hends _ (.bind (.writeText _) (.breakUnless (.writePrompt p) _))
  obtain ⟨terminal, hopen', hafter⟩ := hwrites
  rw [hafter]
  exact ⟨⟨hopen', .of_eq_zero hlimit rfl, fun _ => rfl⟩, rfl⟩

-- ============================================================================
-- Stays at a prompt
-- ============================================================================

instance (sh : Shell σ κ φ) (c : Char) (node : NodeId) : Decidable (sh.Submits c node) :=
  decidable_of_iff
    (sh.phase = .active ∧ (sh.decoder.feed c).1 = .enter ∧ sh.console.session.node = node ∧
      (sh.terminal.write Terminal.lineBreak).1 = true)
    ⟨fun ⟨active, entered, node, written⟩ => ⟨active, entered, node, written⟩,
      fun h => ⟨h.active, h.entered, h.node, h.written⟩⟩

/-- The character sends a line at a prompt that the host does not accept. -/
def Rejects (sh : Shell σ κ φ) (c : Char) (node : NodeId) : Prop :=
  sh.Submits c node ∧ acceptsAt sh.console.host node sh.buffer = false

instance (sh : Shell σ κ φ) (c : Char) (node : NodeId) : Decidable (sh.Rejects c node) :=
  inferInstanceAs (Decidable (_ ∧ _))

/-- How many lines are rejected at a prompt while characters are typed. -/
def rejections (p : Program σ κ) (node : NodeId) : Shell σ κ φ → List Char → Nat
  | _, [] => 0
  | sh, c :: rest =>
    (if sh.Rejects c node then 1 else 0) + rejections p node (after (process p c) sh) rest

theorem feed_append (p : Program σ κ) (sh : Shell σ κ φ) (typed more : List Char) :
    feed p sh (typed ++ more) = feed p (feed p sh typed) more :=
  List.foldl_append

theorem rejections_concat (p : Program σ κ) (node : NodeId) (sh : Shell σ κ φ)
    (typed : List Char) (c : Char) :
    rejections p node sh (typed ++ [c]) =
      rejections p node sh typed + if (feed p sh typed).Rejects c node then 1 else 0 := by
  induction typed generalizing sh with
  | nil => exact Nat.add_comm _ _
  | cons d rest ih =>
    rw [List.cons_append, rejections, rejections, ih, Nat.add_assoc]
    rfl

/-- The characters behind `before` are typed while the session is at a node, where it has just
    come or started. -/
structure IsStay (p : Program σ κ) (start : Shell σ κ φ) (node : NodeId)
    (before stay : List Char) : Prop where
  arrives : before = [] ∨
    ∃ earlier c, before = earlier ++ [c] ∧ (feed p start earlier).console.session.node ≠ node
  remains : ∀ earlier c rest, stay = earlier ++ c :: rest →
    (feed p start (before ++ earlier)).console.session.node = node

variable {start : Shell σ κ φ} {node : NodeId} {before stay : List Char}

/-- The count is gone where the session comes to a prompt. -/
theorem OnGuard.authFailures_of_arrival (hkeeps : p.application.KeepsFailures)
    (h : OnGuard p sh) (c : Char)
    (hmoves : (after (Shell.process p c) sh).console.session.node ≠ sh.console.session.node) :
    (after (Shell.process p c) sh).console.session.authFailures = 0 := by
  have hactive : sh.phase = .active := by
    by_contra hnot
    exact hmoves (by rw [process_of_not_active hnot])
  rw [(h.settles hactive c).session] at hmoves ⊢
  rcases sessionBehind_cases hkeeps sh (sh.decoder.feed c).1 with
    ⟨-, -, -, hrejected⟩ | ⟨hcount, hstays⟩ | ⟨-, -, hcount⟩
  · rw [hrejected, judged, if_neg Bool.false_ne_true] at hmoves ⊢
    split_ifs at hmoves ⊢
    · exact absurd rfl hmoves
    · exact absurd rfl hmoves
    · rfl
  · refine hcount.trans (h.guarded.counted.resolve_left fun hprompt => ?_)
    exact hmoves (hstays hprompt).2
  · exact hcount

/-- A rejected line is judged, and is the only way to count. -/
theorem OnGuard.process_cases (hkeeps : p.application.KeepsFailures)
    (h : OnGuard p sh) (hprompt : sh.console.session.node.isPrompt = true) (c : Char) :
    let now := after (Shell.process p c) sh
    (sh.Rejects c sh.console.session.node ∧
        Settles (judged p.limits.authFailures sh.console.session false) now) ∨
      ¬ sh.Rejects c sh.console.session.node ∧
        (now.console.session.node = sh.console.session.node →
          now.console.session.authFailures = sh.console.session.authFailures) := by
  intro now
  by_cases hactive : sh.phase = .active
  · have hsettles := h.settles hactive c
    rcases sessionBehind_cases hkeeps sh (sh.decoder.feed c).1 with
      ⟨-, hevent, hnot, hrejected⟩ | ⟨hcount, hstays⟩ | ⟨haccepted, hmoves, -⟩
    · rw [hrejected] at hsettles
      exact .inl ⟨⟨⟨hactive, hevent, rfl, (h.opened.write _).1⟩, hnot⟩, hsettles⟩
    · refine .inr ⟨fun hrejects => (hstays hprompt).1 hrejects.1.entered, fun _ => ?_⟩
      rw [hsettles.session]
      exact hcount
    · refine .inr ⟨fun hrejects => ?_, fun hsame => ?_⟩
      · exact absurd (hrejects.2.symm.trans haccepted) (by decide)
      · rw [hsettles.session] at hsame
        exact absurd hsame hmoves
  · have hsame : now = sh := process_of_not_active hactive c
    rw [hsame]
    exact .inr ⟨fun hrejects => hactive hrejects.1.active, fun _ => rfl⟩

/-- Along a stay the count is the number of rejected lines, which the limit bounds. -/
theorem IsStay.authFailures_eq (hkeeps : p.application.KeepsFailures)
    (hlimit : 0 < p.limits.authFailures) (hstart : OnGuard p start)
    (hnone : start.console.session.authFailures = 0) (hprompt : node.isPrompt = true)
    (h : IsStay p start node before stay) :
    ((feed p start (before ++ stay)).console.session.node = node →
        (feed p start (before ++ stay)).console.session.authFailures =
          rejections p node (feed p start before) stay) ∧
      rejections p node (feed p start before) stay ≤ p.limits.authFailures := by
  induction stay using List.reverseRecOn with
  | nil =>
    refine ⟨fun hnode => ?_, Nat.zero_le _⟩
    rw [List.append_nil] at hnode ⊢
    rcases h.arrives with rfl | ⟨earlier, c, rfl, hother⟩
    · exact hnone
    · rw [feed_append] at hnode ⊢
      refine (hstart.feed hkeeps hlimit earlier).authFailures_of_arrival hkeeps c ?_
      exact fun hsame => hother (hsame.symm.trans hnode)
  | append_singleton earlier c ih =>
    have hhere : (feed p start (before ++ earlier)).console.session.node = node :=
      h.remains earlier c [] rfl
    obtain ⟨hcount, hbound⟩ := ih ⟨h.arrives, fun e d rest heq =>
      h.remains e d (rest ++ [c]) (by rw [heq]; simp)⟩
    have hcount := hcount hhere
    have hguard : OnGuard p (feed p start (before ++ earlier)) := hstart.feed hkeeps hlimit _
    rw [rejections_concat, ← feed_append, ← List.append_assoc, feed_append, ← hcount]
    rcases hguard.process_cases hkeeps (hhere ▸ hprompt) c with ⟨hrejects, hsettles⟩ |
      ⟨hnot, hstays⟩
    · rw [hhere] at hrejects
      rw [if_pos hrejects]
      refine ⟨fun hnode => ?_, hguard.authFailures_lt hrejects.1.active⟩
      have hjudged : (feed p (feed p start (before ++ earlier)) [c]).console.session = _ :=
        hsettles.session
      rw [hjudged, judged, if_neg Bool.false_ne_true] at hnode ⊢
      split_ifs at hnode ⊢
      · rfl
      · rfl
      · -- The enable prompt is left.
        have hview : NodeId.view = node := hnode
        rw [← hview] at hprompt
        exact absurd hprompt (by decide)
    · rw [hhere] at hnot hstays
      rw [if_neg hnot]
      exact ⟨hstays, hcount ▸ hbound⟩

theorem feed_of_not_active (h : sh.phase ≠ .active) (typed : List Char) :
    feed p sh typed = sh := by
  induction typed with
  | nil => rfl
  | cons c rest ih =>
    show feed p (after (process p c) sh) rest = sh
    rw [process_of_not_active h]
    exact ih

/-- Whoever does not know the password is locked out. The application's commands leave the
    count alone, the terminal takes everything, and the shell is started. Then whatever is
    typed, there is no count off the prompts, the count is below the limit as long as the
    shell goes on, and a closed shell stays as it is. No more lines than the limit are
    rejected in one stay at a prompt. One that does not make the limit leaves the session
    there. One that does closes a shell at the login, and takes the session from the enable
    prompt back, where it has no count. -/
theorem feed_lockout (p : Program σ κ) (hkeeps : p.application.KeepsFailures)
    (hlimit : 0 < p.limits.authFailures) (sh : Shell σ κ φ) (hopen : sh.terminal.IsOpen)
    (typed : List Char) :
    let start := after (activate p) sh
    let now := feed p start typed
    let session := now.console.session
    (session.node.isPrompt = false → session.authFailures = 0) ∧
      (now.phase = .active → session.authFailures < p.limits.authFailures) ∧
      (now.phase = .closed → ∀ more, feed p now more = now) ∧
      ∀ node before stay, node.isPrompt = true → typed = before ++ stay →
        IsStay p start node before stay →
        let count := rejections p node (feed p start before) stay
        count ≤ p.limits.authFailures ∧
          ∀ earlier c, stay = earlier ++ [c] →
            (feed p start (before ++ earlier)).Rejects c node →
            (count < p.limits.authFailures →
              session.node = node ∧ session.authFailures = count ∧ now.phase = .active) ∧
            (count = p.limits.authFailures →
              if node = .auth then now.phase = .closed
              else session.node = .view ∧ session.authFailures = 0 ∧ now.phase = .active) := by
  intro start now session
  obtain ⟨hstart, hnone⟩ := OnGuard.activate (p := p) hlimit hopen
  have hnow : OnGuard p now := hstart.feed hkeeps hlimit typed
  refine ⟨fun helsewhere => hnow.guarded.counted.resolve_left (ne_true_of_eq_false helsewhere),
    hnow.authFailures_lt, fun hclosed more => feed_of_not_active (by simp [hclosed]) more, ?_⟩
  rintro node before stay hprompt htyped hstay count
  refine ⟨(hstay.authFailures_eq hkeeps hlimit hstart hnone hprompt).2, ?_⟩
  rintro earlier c rfl hrejects
  have hearlier : IsStay p start node before earlier := ⟨hstay.arrives, fun e d rest heq =>
    hstay.remains e d (rest ++ [c]) (by rw [heq]; simp)⟩
  have hnode : (feed p start (before ++ earlier)).console.session.node = node := hrejects.1.node
  have hbefore := (hearlier.authFailures_eq hkeeps hlimit hstart hnone hprompt).1 hnode
  have hguard : OnGuard p (feed p start (before ++ earlier)) := hstart.feed hkeeps hlimit _
  have hlast : now = after (process p c) (feed p start (before ++ earlier)) := by
    show feed p start typed = _
    rw [htyped, ← List.append_assoc, feed_append]
    rfl
  have hcount : count = (feed p start (before ++ earlier)).console.session.authFailures + 1 := by
    show rejections p node (feed p start before) (earlier ++ [c]) = _
    rw [rejections_concat, ← feed_append, if_pos hrejects, hbefore]
  rcases hguard.process_cases hkeeps (hnode ▸ hprompt) c with ⟨-, hsettles⟩ | ⟨hnot, -⟩
  · rw [← hlast] at hsettles
    have hrejected := hsettles.rejected (hguard.goes hrejects.1.active)
    rwa [hnode, ← hcount] at hrejected
  · exact absurd (hnode.symm ▸ hrejects) hnot

/-- A console with two tries at a password. -/
def twoTries : Program Unit Unit :=
  { enableOnly with limits := { Limits.standard with authFailures := 2 } }

/-- A session of that console behind some characters. The host has an enable password. -/
def enabling (typed : List Char) : Shell Unit Unit FileTree :=
  let host : Host := { enable := some (.plain "pw") }
  feed twoTries
    (after (activate twoTries) (new twoTries.limits { (inLine "").console with host } {})) typed

/-- Two wrong passwords lead from the enable prompt back. -/
theorem feed_lockout_twoTries :
    let before := ['e', 'n', 'a', 'b', 'l', 'e', '\r']
    let stay := ['x', '\r', 'y', '\r']
    IsStay twoTries (enabling []) .authEnable before stay ∧
      rejections twoTries .authEnable (enabling before) stay = 2 ∧
      (enabling (before ++ stay)).console.session.node = .view ∧
      (enabling (before ++ stay)).console.session.authFailures = 0 ∧
      (enabling (before ++ stay)).phase = .active := by
  intro before stay
  have hhere : ∀ earlier ∈ stay.inits, earlier.length < 4 →
      (enabling (before ++ earlier)).console.session.node = .authEnable := by
    decide +kernel
  have hstay : IsStay twoTries (enabling []) .authEnable before stay := by
    refine ⟨.inr ⟨['e', 'n', 'a', 'b', 'l', 'e'], '\r', rfl, by decide +kernel⟩, ?_⟩
    intro earlier c rest heq
    refine hhere earlier ((List.mem_inits _ _).2 ⟨_, heq.symm⟩) ?_
    have hlength : 4 = earlier.length + (c :: rest).length :=
      (congrArg List.length heq).trans List.length_append
    have hbehind : 0 < (c :: rest).length := Nat.succ_pos _
    omega
  have hcount : rejections twoTries .authEnable (enabling before) stay = 2 := by
    decide +kernel
  have hrejects : (enabling (before ++ ['x', '\r', 'y'])).Rejects '\r' .authEnable := by
    decide +kernel
  obtain ⟨-, -, -, hstays⟩ := feed_lockout twoTries (fun _ _ _ _ => rfl) (by decide)
    (new twoTries.limits
      { (inLine "").console with host := { enable := some (.plain "pw") } } {}) rfl
    (before ++ stay)
  have hends := (hstays .authEnable before stay rfl rfl hstay).2 ['x', '\r', 'y'] '\r' rfl
    hrejects
  have hback := hends.2 hcount
  rw [if_neg (by decide)] at hback
  exact ⟨hstay, hcount, hback⟩

end Shell

end RouterCli
