import RouterCli.Files.Tree
import RouterCli.Proofs.Command.Extended
import RouterCli.Proofs.Console.Levels
import RouterCli.Proofs.Matching.Found
import RouterCli.Proofs.Shell.Work

/-!
  RouterCli.Proofs.Shell.Privilege

  No privilege without a password. What a shell can do below the privileged
  commands is settled per character: apart from the end of a line nothing moves
  the session (`Shell.place_handle_of_below`), a line run without privileges
  leads to the enable prompt at most (`Program.execute_unprivileged`), and a
  password prompt is left upwards only by a line that the host accepts
  (`Shell.process_of_auth`, `Shell.process_unprivileged`). Over all characters
  typed, a session that is past a prompt has passed it (`Shell.exists_accepted`).
-/

namespace RouterCli

/-- The application's commands leave the session at its node. -/
def Application.KeepsNode {σ κ : Type} (a : Application σ κ) : Prop :=
  ∀ spec args app s, (a.execute spec args app s).2.2.node = s.node

theorem NodeId.eq_view_of_below {n : NodeId} (hbelow : n.value < enable.value)
    (hprompt : n ≠ auth ∧ n ≠ authEnable) : n = view := by
  obtain ⟨value⟩ := n
  have hthree : value < 3 := hbelow
  have hauth : value ≠ 0 := fun h => hprompt.1 (congrArg NodeId.mk h)
  have htwo : value ≠ 2 := fun h => hprompt.2 (congrArg NodeId.mk h)
  have hone : value = 1 := by omega
  exact congrArg NodeId.mk hone

variable {σ κ φ : Type} [FileStore φ]

-- ============================================================================
-- Lines without privileges
-- ============================================================================

/-- The host has these settings, and the session is at a node without privileges. -/
def Console.Unprivileged (host : Host) (c : Console σ κ φ) : Prop :=
  c.host = host ∧ c.session.node.value < NodeId.enable.value

namespace Program

variable {p : Program σ κ} {c : Console σ κ φ} {host : Host}

omit [FileStore φ] in
theorem exit_of_below (p : Program σ κ) {c : Console σ κ φ}
    (hbelow : c.session.node.value < NodeId.enable.value) :
    (p.exit c).host = c.host ∧ (p.exit c).session.node = c.session.node := by
  have hconfig : c.session.node ≠ .config := by
    intro heq
    rw [heq] at hbelow
    exact absurd hbelow (by decide)
  have hnot : ¬ NodeId.config.value < c.session.node.value := by
    have : NodeId.enable.value < NodeId.config.value := by decide
    omega
  unfold exit
  rw [if_neg hconfig, if_neg hnot]
  split_ifs <;> exact ⟨rfl, rfl⟩

theorem leaveConfig_of_below (p : Program σ κ) {c : Console σ κ φ}
    (hbelow : c.session.node.value < NodeId.enable.value) : p.leaveConfig c = c := by
  unfold leaveConfig
  exact if_pos (Nat.le_of_lt hbelow)

/-- The commands of the library that may stand at the node without privileges give
    none. -/
theorem runBuiltin_unprivileged (h : c.Unprivileged host)
    (henable : host.requiresEnablePassword = true) {command : Builtin}
    (hcommand : command ∈ Registry.viewBuiltins) (args : List String) :
    (p.runBuiltin command args c).2.Unprivileged host := by
  cases command <;> simp only [runBuiltin]
  case exit =>
    obtain ⟨hhost, hnode⟩ := p.exit_of_below h.2
    unfold Console.Unprivileged
    rw [hhost, hnode]
    exact h
  case enable =>
    rw [h.1, if_pos henable]
    refine ⟨h.1, ?_⟩
    show NodeId.authEnable.value < NodeId.enable.value
    decide
  case terminalLength =>
    unfold Console.setLength
    split <;> exact h
  case writeFile =>
    obtain ⟨world, text, hkeeps⟩ := p.writeFile_keeps c
    rw [hkeeps]
    exact h
  case showVersion | list | help | noTerminalLength | echo | showLogging | writeTerminal =>
    exact h
  all_goals exact absurd hcommand (by decide)

theorem perform_unprivileged (hkeeps : p.application.KeepsNode) (h : c.Unprivileged host)
    (henable : host.requiresEnablePassword = true) {found : Resolved}
    (haction : (∃ key, found.element.spec.action = .application key) ∨
      ∃ command ∈ Registry.viewBuiltins, found.element.spec.action = .builtin command) :
    (p.perform found c).2.Unprivileged host := by
  unfold perform
  rcases haction with ⟨key, haction⟩ | ⟨command, hcommand, haction⟩
  · rw [haction]
    refine ⟨h.1, ?_⟩
    dsimp only
    rw [hkeeps]
    exact h.2
  · rw [haction]
    exact runBuiltin_unprivileged h henable hcommand _

/-- A line that is run at the node without privileges gives none. -/
theorem dispatch_unprivileged (hregistry : p.registry.IsExtended)
    (hkeeps : p.application.KeepsNode) (h : c.Unprivileged host)
    (hnode : c.session.node = .view) (henable : host.requiresEnablePassword = true)
    (words : List String) (strict : Bool) : (p.dispatch words strict c).2.Unprivileged host := by
  unfold dispatch
  dsimp only
  rw [hnode]
  split
  · exact h
  · rename_i found hfound
    split_ifs
    · exact h
    · have haction := hregistry.action_of_mem_view (mem_of_resolve hfound).1
      have hperform := perform_unprivileged hkeeps h henable haction
      unfold closeIfFatal
      dsimp only
      split <;> exact hperform

theorem execute_unprivileged (hregistry : p.registry.IsExtended)
    (hkeeps : p.application.KeepsNode) (h : c.Unprivileged host)
    (hnode : c.session.node = .view) (henable : host.requiresEnablePassword = true)
    (line : String) : (p.execute line c).2.Unprivileged host := by
  have hshortcut : ¬ isShortcut c.session.node (Line.parse line).first? = true := by
    rw [hnode]
    simp [isShortcut]
  unfold execute
  dsimp only
  rw [if_neg hshortcut]
  split_ifs
  · exact h
  · exact dispatch_unprivileged hregistry hkeeps h hnode henable _ _

end Program

-- ============================================================================
-- Characters without privileges
-- ============================================================================

namespace Shell

variable {p : Program σ κ} {sh : Shell σ κ φ} {host : Host} {c : Char}

/-- The character ends a line at the prompt of a node, and the terminal takes the
    line break behind it, so that the line is looked at. -/
structure Submits (sh : Shell σ κ φ) (c : Char) (node : NodeId) : Prop where
  active : sh.phase = .active
  entered : (sh.decoder.feed c).1 = .enter
  node : sh.console.session.node = node
  written : (sh.terminal.write Terminal.lineBreak).1 = true

/-- Suspending takes a session down to the privileged commands, never up. -/
theorem place_suspend_of_below (p : Program σ κ)
    (hbelow : sh.console.session.node.value < NodeId.enable.value) :
    (after (suspend p) sh).place = sh.place := by
  unfold suspend
  rw [after_get_bind]
  cases sh.atPasswordPrompt with
  | true => rfl
  | false =>
    show (after (do
      modifyThe (Shell σ κ φ) fun sh =>
        { sh with buffer := "", history := sh.history.resetPosition }
      writeBreak
      modifyThe (Shell σ κ φ) (·.mapConsole p.leaveConfig)
      writePrompt p) sh).place = sh.place
    rw [after_modify_bind, after_writeBreak_bind]
    split_ifs
    · rw [after_modify_bind, Still.writePrompt p]
      unfold place mapConsole
      dsimp only
      rw [p.leaveConfig_of_below hbelow]
    · rfl

/-- The end of the input closes a session below the privileged commands, where it
    does anything. -/
theorem place_endOfInput_of_below (p : Program σ κ)
    (hbelow : sh.console.session.node.value < NodeId.enable.value) :
    (after (endOfInput p) sh).place = sh.place := by
  unfold endOfInput
  rw [after_get_bind]
  split_ifs
  · rw [after_writeBreak_bind]
    split_ifs
    · rw [after_modify_bind, Still.closeOrPrompt p]
      unfold place mapConsole
      dsimp only
      obtain ⟨hhost, hnode⟩ := p.exit_of_below hbelow
      rw [hhost, hnode]
    · rfl
  · rfl

/-- Below the privileged commands nothing but the end of a line moves the session
    or changes the host's settings. -/
theorem place_handle_of_below (p : Program σ κ) (sh : Shell σ κ φ)
    (hbelow : sh.console.session.node.value < NodeId.enable.value) {event : InputEvent}
    (hevent : event ≠ .enter) :
    (after (handle p event) sh).place = sh.place := by
  cases event with
  | none => rfl
  | char c => exact Still.typeChar p c sh
  | backspace => exact Still.backspace sh
  | enter => exact absurd rfl hevent
  | tab => exact Still.completeWord p sh
  | help => exact Still.help p sh
  | up => exact Still.recallPrevious p sh
  | down => exact Still.recallNext p sh
  | doubleEscape | killLine => exact Still.killLine p sh
  | interrupt => exact Still.interrupt p sh
  | suspend => exact place_suspend_of_below p hbelow
  | endOfInput => exact place_endOfInput_of_below p hbelow

/-- What is looked at where a line ends, and in which shell. -/
theorem place_enter (p : Program σ κ) (sh : Shell σ κ φ) :
    (after (enter p) sh).place =
      if (sh.terminal.write Terminal.lineBreak).1 then
        (after (if sh.atPasswordPrompt then checkPassword p sh.buffer else runLine p sh.buffer)
          { sh.clearBuffer with terminal := (sh.terminal.write Terminal.lineBreak).2 }).place
      else sh.place := by
  unfold enter
  rw [after_get_bind, after_set_bind, after_writeBreak_bind]
  show (if (sh.terminal.write Terminal.lineBreak).1 then _ else _ : Shell σ κ φ).place = _
  split_ifs
  · exact place_after_bind (fun _ => Still.closeOrPrompt p) _
  · exact place_after_bind (fun _ => Still.closeOrPrompt p) _
  · rfl

/-- A line that is not accepted leaves the session at the prompt, or takes it from
    the enable prompt back. -/
theorem place_rejectPassword (p : Program σ κ) (sh : Shell σ κ φ) :
    (after (rejectPassword p) sh).place = sh.place ∨
      sh.console.session.node ≠ .auth ∧
        (after (rejectPassword p) sh).place = (sh.console.host, .view) := by
  unfold rejectPassword
  rw [after_modify_bind, after_get_bind]
  dsimp only
  split_ifs with hlimit hauth
  · refine .inl ?_
    rw [after_modify_bind]
    exact (Still.write _).bind (fun _ _ => rfl) _
  · rcases after_bind_cases (write "% Bad enable passwords, too many failures!\r\n")
      (fun _ => modifyThe (Shell σ κ φ) (·.mapSession fun s => s.resetAuthFailures.setNode .view))
      (sh.mapSession (·.recordAuthFailure)) with hfirst | ⟨_, hsecond⟩
    · rw [hfirst]
      exact .inl (Still.write _ _)
    · rw [hsecond, after_modify]
      exact .inr ⟨hauth, congrArg (fun place => (place.1, NodeId.view)) (Still.write _ _)⟩
  · exact .inl rfl

/-- A line at a password prompt that is accepted takes the session on; any other
    leaves it there, or takes it from the enable prompt back. -/
theorem place_checkPassword (p : Program σ κ) (input : String) (sh : Shell σ κ φ) :
    (after (checkPassword p input) sh).place = sh.place ∨
      sh.console.session.node ≠ .auth ∧
        (after (checkPassword p input) sh).place = (sh.console.host, .view) ∨
      acceptsAt sh.console.host sh.console.session.node input = true ∧
        (after (checkPassword p input) sh).place =
          (sh.console.host, if sh.console.session.node = .auth then .view else .enable) := by
  unfold checkPassword
  rw [after_get_bind]
  by_cases haccepted : acceptsAt sh.console.host sh.console.session.node input = true
  · rw [if_pos haccepted]
    exact .inr (.inr ⟨haccepted, rfl⟩)
  · rw [if_neg haccepted]
    rcases place_rejectPassword p sh with hsame | hback
    · exact .inl hsame
    · exact .inr (.inl hback)

/-- The end of a line at a password prompt, if the line is looked at. -/
theorem place_enter_of_prompt (p : Program σ κ) (hprompt : sh.atPasswordPrompt = true) :
    (after (enter p) sh).place = sh.place ∨
      sh.console.session.node ≠ .auth ∧ (after (enter p) sh).place = (sh.console.host, .view) ∨
      (sh.terminal.write Terminal.lineBreak).1 = true ∧
        acceptsAt sh.console.host sh.console.session.node sh.buffer = true ∧
        (after (enter p) sh).place =
          (sh.console.host, if sh.console.session.node = .auth then .view else .enable) := by
  rw [place_enter, if_pos hprompt]
  by_cases hwritten : (sh.terminal.write Terminal.lineBreak).1 = true
  · rw [if_pos hwritten]
    rcases place_checkPassword p sh.buffer
        { sh.clearBuffer with terminal := (sh.terminal.write Terminal.lineBreak).2 } with
      hsame | hback | hon
    · exact .inl hsame
    · exact .inr (.inl hback)
    · exact .inr (.inr ⟨hwritten, hon⟩)
  · rw [if_neg hwritten]
    exact .inl rfl

/-- A line that was run leaves the shell where the console is behind it. -/
theorem place_runLine (p : Program σ κ) (input : String) (sh : Shell σ κ φ) :
    (after (runLine p input) sh).place =
      ((p.execute input sh.console).2.host, (p.execute input sh.console).2.session.node) := by
  unfold runLine
  rw [after_get_bind]
  dsimp only
  rw [after_set_bind]
  refine ((Still.writeText _).bind fun _ => Still.breakUnless ?_ _) _
  split
  · exact .pure ()
  · split
    · exact .pure ()
    · exact (Still.write _).bind fun _ => .writeBreak

/-- The prompt for the login is left by a line that the host accepts. -/
theorem enter_of_auth (p : Program σ κ) (sh : Shell σ κ φ) (h : sh.place = (host, .auth)) :
    (after (enter p) sh).place = (host, .auth) ∨
      (sh.terminal.write Terminal.lineBreak).1 = true ∧ host.acceptsLogin sh.buffer = true := by
  have hhost : sh.console.host = host := congrArg Prod.fst h
  have hnode : sh.console.session.node = .auth := congrArg Prod.snd h
  have hprompt : sh.atPasswordPrompt = true := by
    unfold atPasswordPrompt
    rw [hnode]
    rfl
  rcases place_enter_of_prompt p hprompt with hsame | ⟨hother, -⟩ | ⟨hwritten, haccepted, -⟩
  · exact .inl (hsame.trans h)
  · exact absurd hnode hother
  · rw [hhost, hnode] at haccepted
    exact .inr ⟨hwritten, haccepted⟩

omit [FileStore φ] in
theorem unprivileged_of_place {node : NodeId} (hplace : sh.place = (host, node))
    (hbelow : node.value < NodeId.enable.value) : sh.console.Unprivileged host := by
  have hnode : sh.console.session.node = node := congrArg Prod.snd hplace
  refine ⟨congrArg Prod.fst hplace, ?_⟩
  rw [hnode]
  exact hbelow

/-- A line gives no privileges, unless the host accepts it at the enable prompt. -/
theorem enter_unprivileged (hregistry : p.registry.IsExtended)
    (hkeeps : p.application.KeepsNode) (henable : host.requiresEnablePassword = true)
    (sh : Shell σ κ φ) (h : sh.console.Unprivileged host) :
    (after (enter p) sh).console.Unprivileged host ∨
      sh.console.session.node = .authEnable ∧
        (sh.terminal.write Terminal.lineBreak).1 = true ∧ host.acceptsEnable sh.buffer = true := by
  have hplace : sh.place = (host, sh.console.session.node) := Prod.ext h.1 rfl
  cases hprompt : sh.atPasswordPrompt with
  | true =>
    rcases place_enter_of_prompt p hprompt with hsame | ⟨-, hback⟩ | ⟨hwritten, haccepted, hon⟩
    · exact .inl (unprivileged_of_place (hsame.trans hplace) h.2)
    · rw [h.1] at hback
      exact .inl (unprivileged_of_place hback (by decide))
    · rw [h.1] at haccepted hon
      by_cases hauth : sh.console.session.node = .auth
      · rw [if_pos hauth] at hon
        exact .inl (unprivileged_of_place hon (by decide))
      · have hnode : sh.console.session.node = .authEnable := by
          simpa [atPasswordPrompt, hauth] using hprompt
        rw [hnode] at haccepted
        exact .inr ⟨hnode, hwritten, haccepted⟩
  | false =>
    have hnode : sh.console.session.node = .view :=
      NodeId.eq_view_of_below h.2 (by simpa [atPasswordPrompt] using hprompt)
    have henter := place_enter p sh
    rw [hprompt, if_neg Bool.false_ne_true] at henter
    split_ifs at henter
    · rw [place_runLine] at henter
      obtain ⟨hhost, hbelow⟩ := Program.execute_unprivileged hregistry hkeeps h hnode henable
        sh.buffer
      refine .inl (unprivileged_of_place (henter.trans ?_) hbelow)
      exact congrArg (fun host => (host, _)) hhost
    · exact .inl (unprivileged_of_place (henter.trans hplace) h.2)

-- ============================================================================
-- One character
-- ============================================================================

theorem after_process (p : Program σ κ) (c : Char) (sh : Shell σ κ φ) :
    after (process p c) sh =
      if sh.phase = .active then
        after (handle p (sh.decoder.feed c).1) { sh with decoder := (sh.decoder.feed c).2 }
      else sh := by
  unfold process
  rw [after_get_bind]
  split_ifs <;> rfl

/-- Below the privileged commands a character moves the session where it ends a
    line, if anywhere. -/
theorem process_cases_of_below (p : Program σ κ) (c : Char)
    (hbelow : sh.console.session.node.value < NodeId.enable.value) :
    (after (process p c) sh).place = sh.place ∨
      sh.phase = .active ∧ (sh.decoder.feed c).1 = .enter ∧
        after (process p c) sh = after (enter p) { sh with decoder := (sh.decoder.feed c).2 } := by
  rw [after_process]
  split_ifs with hactive
  · by_cases hevent : (sh.decoder.feed c).1 = .enter
    · rw [hevent]
      exact .inr ⟨hactive, rfl, rfl⟩
    · exact .inl (place_handle_of_below p { sh with decoder := (sh.decoder.feed c).2 } hbelow
        hevent)
  · exact .inl rfl

theorem process_of_auth (p : Program σ κ) (c : Char) (h : sh.place = (host, .auth)) :
    (after (process p c) sh).place = (host, .auth) ∨
      sh.Submits c .auth ∧ host.acceptsLogin sh.buffer = true := by
  have hnode : sh.console.session.node = .auth := congrArg Prod.snd h
  have hbelow : sh.console.session.node.value < NodeId.enable.value := by
    rw [hnode]
    decide
  rcases process_cases_of_below p c hbelow with hsame | ⟨hactive, hentered, hafter⟩
  · exact .inl (hsame.trans h)
  · rw [hafter]
    rcases enter_of_auth p { sh with decoder := (sh.decoder.feed c).2 } h with hstays | ⟨hwritten, haccepted⟩
    · exact .inl hstays
    · exact .inr ⟨⟨hactive, hentered, hnode, hwritten⟩, haccepted⟩

theorem process_unprivileged (hregistry : p.registry.IsExtended)
    (hkeeps : p.application.KeepsNode) (henable : host.requiresEnablePassword = true) (c : Char)
    (h : sh.console.Unprivileged host) :
    (after (process p c) sh).console.Unprivileged host ∨
      sh.Submits c .authEnable ∧ host.acceptsEnable sh.buffer = true := by
  rcases process_cases_of_below p c h.2 with hsame | ⟨hactive, hentered, hafter⟩
  · have hplace : sh.place = (host, sh.console.session.node) := Prod.ext h.1 rfl
    exact .inl (unprivileged_of_place (hsame.trans hplace) h.2)
  · rw [hafter]
    rcases enter_unprivileged hregistry hkeeps henable
        { sh with decoder := (sh.decoder.feed c).2 } h with
      hstays | ⟨hnode, hwritten, haccepted⟩
    · exact .inl hstays
    · exact .inr ⟨⟨hactive, hentered, hnode, hwritten⟩, haccepted⟩

-- ============================================================================
-- All characters
-- ============================================================================

/-- The shell behind some characters, those at which it failed included. -/
def feed (p : Program σ κ) (sh : Shell σ κ φ) (typed : List Char) : Shell σ κ φ :=
  typed.foldl (fun sh c => after (process p c) sh) sh

/-- Characters are taken up to the first at which the shell fails. -/
theorem exists_feed_of_processAll (p : Program σ κ) (sh : Shell σ κ φ) (typed : List Char) :
    ∃ taken, taken <+: typed ∧ after (processAll p typed) sh = feed p sh taken := by
  induction typed generalizing sh with
  | nil => exact ⟨[], List.prefix_rfl, rfl⟩
  | cons c rest ih =>
    rcases after_bind_cases (process p c) (fun _ => processAll p rest) sh with
      hfails | ⟨_, hgoes⟩
    · exact ⟨[c], ⟨rest, rfl⟩, hfails⟩
    · obtain ⟨taken, hprefix, hrest⟩ := ih (after (process p c) sh)
      exact ⟨c :: taken, (List.prefix_cons_inj c).2 hprefix, hgoes.trans hrest⟩

/-- What holds as long as nothing happens holds in the end, or it has happened at
    one of the characters. -/
theorem feed_cases (p : Program σ κ) (holds : Shell σ κ φ → Prop)
    {happens : Shell σ κ φ → Char → Prop}
    (hstep : ∀ sh c, holds sh → holds (after (process p c) sh) ∨ happens sh c)
    (typed : List Char) (h : holds sh) :
    holds (feed p sh typed) ∨
      ∃ before c rest, typed = before ++ c :: rest ∧ holds (feed p sh before) ∧
        happens (feed p sh before) c := by
  induction typed generalizing sh with
  | nil => exact .inl h
  | cons c typed ih =>
    rcases hstep sh c h with hafter | hevent
    · rcases ih hafter with hend | ⟨before, c', rest, rfl, hbefore, hevent⟩
      · exact .inl hend
      · exact .inr ⟨c :: before, c', rest, rfl, hbefore, hevent⟩
    · exact .inr ⟨[], c, typed, rfl, h, hevent⟩

/-- A session starts at the node its host has it start at. -/
theorem place_activate (p : Program σ κ) (sh : Shell σ κ φ) :
    (after (activate p) sh).place = (sh.console.host, startNode sh.console.host) := by
  unfold activate
  rw [after_modify_bind, after_get_bind]
  dsimp only
  split
  · exact Still.writePrompt p _
  · exact ((Still.writeText _).bind fun _ => (Still.writePrompt p).breakUnless _) _

/-- No privilege without a password. The host of a shell asks for a login and for
    the enable password, and the shell is started; then in every state that typing
    leads to, a session that is not at the login has sent a line there that the
    host accepts, and one that has privileges has sent such a line at the enable
    prompt. The settings of the host were then those of the start. -/
theorem exists_accepted {p : Program σ κ} (hregistry : p.registry.IsExtended)
    (hkeeps : p.application.KeepsNode) (sh : Shell σ κ φ)
    (hlogin : sh.console.host.requiresLogin = true)
    (henable : sh.console.host.requiresEnablePassword = true) (typed : List Char) :
    let start := after (activate p) sh
    let session := (feed p start typed).console.session
    (session.node ≠ .auth →
      ∃ before c rest, typed = before ++ c :: rest ∧ (feed p start before).Submits c .auth ∧
        (feed p start before).console.host = sh.console.host ∧
        sh.console.host.acceptsLogin (feed p start before).buffer = true) ∧
    (NodeId.enable.value ≤ session.node.value →
      ∃ before c rest, typed = before ++ c :: rest ∧
        (feed p start before).Submits c .authEnable ∧
        (feed p start before).console.host = sh.console.host ∧
        sh.console.host.acceptsEnable (feed p start before).buffer = true) := by
  intro start session
  have hstart : start.place = (sh.console.host, .auth) := by
    rw [place_activate, startNode, if_pos hlogin]
  constructor
  · intro hnode
    rcases feed_cases p (fun sh' => sh'.place = (sh.console.host, .auth))
        (fun _ c => process_of_auth p c) typed hstart with
      hauth | ⟨before, c, rest, htyped, hbefore, hsubmits, haccepted⟩
    · exact absurd (congrArg Prod.snd hauth) hnode
    · exact ⟨before, c, rest, htyped, hsubmits, congrArg Prod.fst hbefore, haccepted⟩
  · intro hnode
    have hfirst := unprivileged_of_place hstart (by decide)
    rcases feed_cases p (fun sh' => sh'.console.Unprivileged sh.console.host)
        (fun _ c => process_unprivileged hregistry hkeeps henable c) typed hfirst with
      hbelow | ⟨before, c, rest, htyped, hbefore, hsubmits, haccepted⟩
    · exact absurd hbelow.2 (Nat.not_lt.2 hnode)
    · exact ⟨before, c, rest, htyped, hsubmits, hbefore.1, haccepted⟩

/-- A terminal's commands, and one of an application that counts its calls. -/
def counting : Program Nat Unit where
  registry := Registry.build ⟨"counting", "1.0", none⟩
    [.install (Standard.standard true),
      .install
        [.command .view { action := .application "count", pattern := "count", doc := "Count\n" }]]
  application := { execute := fun _ _ count s => (.ok .success, count + 1, s) }

/-- A shell on a host with two passwords. -/
def locked : Shell Nat Unit FileTree :=
  new .standard
    { host := { password := some (.plain "pw"), enable := some (.plain "secret") }
      app := 0
      world := { files := ⟨[]⟩, salts := { draw := fun _ => none } }
      session := { node := .view } }
    {}

theorem isExtended_counting : counting.registry.IsExtended := by
  refine ⟨_, _, rfl, ?_⟩
  intro series hseries step hstep
  rcases List.mem_cons.1 hseries with hstandard | hown
  · cases hstandard
    exact .inl hstep
  · cases List.mem_singleton.1 hown
    rw [List.mem_singleton.1 hstep]
    exact .inr (.inl ⟨"count", rfl⟩)

/-- Both passwords were typed and accepted before the session had privileges. -/
theorem exists_accepted_counting :
    let start := after (activate counting) locked
    let typed := "pw\rcount\renable\rsecret\r".toList
    (feed counting start typed).console.session.node = .enable ∧
      (∃ before c rest, typed = before ++ c :: rest ∧
        (feed counting start before).Submits c .auth ∧
        (feed counting start before).console.host = locked.console.host ∧
        locked.console.host.acceptsLogin (feed counting start before).buffer = true) ∧
      ∃ before c rest, typed = before ++ c :: rest ∧
        (feed counting start before).Submits c .authEnable ∧
        (feed counting start before).console.host = locked.console.host ∧
        locked.console.host.acceptsEnable (feed counting start before).buffer = true := by
  intro start typed
  have hnode : (feed counting start typed).console.session.node = .enable := by decide +kernel
  obtain ⟨hlogin, henable⟩ := exists_accepted isExtended_counting (fun _ _ _ _ => rfl) locked rfl
    rfl typed
  refine ⟨hnode, hlogin ?_, henable (Nat.le_of_eq ?_)⟩
  · rw [hnode]
    decide
  · rw [hnode]

end Shell

end RouterCli
