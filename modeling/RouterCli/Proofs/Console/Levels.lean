import RouterCli.Console.Execute

/-!
  RouterCli.Proofs.Console.Levels

  What commands do to the levels a session may return to. A step up takes away
  the innermost level or all of them (`goParent_cases`). Of the commands of the
  library two go up, and the others change no more of the session than its node, its
  output and its screen length (`runBuiltin_moves`); so they return from levels and do
  nothing else to them
  (`runBuiltin_returns`), and so does every line that is run, if the application
  leaves the levels alone (`dispatch_returns`).
-/

namespace RouterCli

namespace Session

variable {κ : Type}

-- ============================================================================
-- Returning from levels
-- ============================================================================

/-- The recorded indentations: that of the current level, and those of the
    levels to return to, the innermost first. -/
def indents (s : Session κ) : List (Option String) :=
  s.indent :: s.parents.map (·.indent)

/-- A session has returned from some of its innermost levels, or from none. -/
def Returns (s t : Session κ) : Prop :=
  t.indents <:+ s.indents

theorem Returns.refl (s : Session κ) : Returns s s := List.suffix_rfl

theorem Returns.trans {s t u : Session κ} (h : Returns s t) (h' : Returns t u) : Returns s u :=
  List.IsSuffix.trans h' h

/-- Whatever does not touch the levels has returned from none. -/
theorem Returns.of_eq {s t : Session κ} (h : t.indents = s.indents) : Returns s t := by
  show t.indents <:+ s.indents
  exact h ▸ List.suffix_rfl

theorem popParent_of_nil {s : Session κ} (h : s.parents = []) : s.popParent = s := by
  simp [popParent, h]

theorem popParent_cons {s : Session κ} {f : Frame κ} {rest : List (Frame κ)}
    (h : s.parents = f :: rest) : s.popParent = { s.restore f with parents := rest } := by
  simp [popParent, h]

theorem clearParents_of_nil {s : Session κ} (h : s.parents = []) : s.clearParents = s := by
  cases s
  simp_all [clearParents]

theorem clearParents_cons {s : Session κ} {f : Frame κ} {rest : List (Frame κ)}
    (h : s.parents = f :: rest) : s.clearParents = s.popParent.clearParents := by
  rw [popParent_cons h]
  simp only [clearParents, h, List.foldl_cons]
  -- Restoring does not look at the levels that are left.
  have hfold : ∀ (fs ps : List (Frame κ)) (t : Session κ),
      { fs.foldl restore { t with parents := ps } with parents := [] } =
        { fs.foldl restore t with parents := [] } := by
    intro fs
    induction fs with
    | nil => intro ps t; rfl
    | cons g gs ih => intro ps t; exact ih ps (t.restore g)
  exact (hfold rest rest (s.restore f)).symm

@[simp] theorem parents_clearParents (s : Session κ) : s.clearParents.parents = [] := rfl

theorem indents_popParent {s : Session κ} {f : Frame κ} {rest : List (Frame κ)}
    (h : s.parents = f :: rest) : s.popParent.indents = s.parents.map (·.indent) := by
  rw [popParent_cons h, h]
  rfl

theorem popParent_returns (s : Session κ) : Returns s s.popParent := by
  cases hs : s.parents with
  | nil =>
    rw [popParent_of_nil hs]
    exact .refl s
  | cons f rest =>
    rw [Returns, indents_popParent hs]
    exact List.suffix_cons _ _

theorem clearParents_returns (s : Session κ) : Returns s s.clearParents := by
  generalize hn : s.parents.length = n
  induction n generalizing s with
  | zero =>
    rw [clearParents_of_nil (List.length_eq_zero_iff.1 hn)]
    exact .refl s
  | succ n ih =>
    obtain ⟨f, rest, hs⟩ := List.exists_cons_of_length_eq_add_one hn
    have hpop : s.popParent.parents.length = n := by
      rw [popParent_cons hs]
      simpa [hs] using hn
    rw [clearParents_cons hs]
    exact (popParent_returns s).trans (ih _ hpop)

-- ============================================================================
-- Staying at a place
-- ============================================================================

/-- A session has kept its place in the configuration: the object it configures and
    the levels to return to. -/
structure KeepsPlace (s t : Session κ) : Prop where
  context : t.context = s.context
  parents : t.parents = s.parents
  epoch : t.epoch = s.epoch
  indent : t.indent = s.indent

namespace KeepsPlace

theorem refl (s : Session κ) : KeepsPlace s s := ⟨rfl, rfl, rfl, rfl⟩

theorem trans {s t u : Session κ} (h : KeepsPlace s t) (h' : KeepsPlace t u) : KeepsPlace s u :=
  ⟨h'.context.trans h.context, h'.parents.trans h.parents, h'.epoch.trans h.epoch,
    h'.indent.trans h.indent⟩

/-- Who has kept the place has returned from no level. -/
theorem returns {s t : Session κ} (h : KeepsPlace s t) : Returns s t := by
  apply Returns.of_eq
  rw [indents, indents, h.indent, h.parents]

end KeepsPlace

/-- A session is at most at another node, with another output and another length of its
    screen. -/
def Moves (s t : Session κ) : Prop :=
  ∃ node output lines, t = { s with node, output, lines }

namespace Moves

theorem refl (s : Session κ) : Moves s s := ⟨s.node, s.output, s.lines, rfl⟩

theorem trans {s t u : Session κ} (h : Moves s t) (h' : Moves t u) : Moves s u := by
  obtain ⟨_, _, _, rfl⟩ := h
  obtain ⟨node, output, lines, rfl⟩ := h'
  exact ⟨node, output, lines, rfl⟩

theorem setNode (s : Session κ) (node : NodeId) : Moves s (s.setNode node) :=
  ⟨node, s.output, s.lines, rfl⟩

theorem setLines (s : Session κ) (lines : Option Nat) : Moves s (s.setLines lines) :=
  ⟨s.node, s.output, lines, rfl⟩

theorem print (s : Session κ) (text : String) : Moves s (s.print text) :=
  ⟨s.node, _, s.lines, rfl⟩

theorem printLine (s : Session κ) (text : String) : Moves s (s.printLine text) :=
  print s _

theorem foldl_printLine (ls : List (List Char)) (s : Session κ) :
    Moves s (ls.foldl (fun s l => s.printLine (String.ofList l)) s) := by
  induction ls generalizing s with
  | nil => exact refl s
  | cons l ls ih => exact (printLine s (String.ofList l)).trans (ih _)

theorem keepsPlace {s t : Session κ} (h : Moves s t) : KeepsPlace s t := by
  obtain ⟨node, output, lines, rfl⟩ := h
  exact ⟨rfl, rfl, rfl, rfl⟩

end Moves

end Session

-- ============================================================================
-- Steps up
-- ============================================================================

namespace Program

open Session

variable {σ κ φ : Type}

/-- A step up moves the session and takes away the innermost level, or all. -/
theorem goParent_cases (p : Program σ κ) (app : σ) (s : Session κ) :
    ∃ node, p.goParent app s = (s.setNode node).popParent ∨
      p.goParent app s = (s.setNode node).clearParents := by
  unfold goParent
  split
  · exact ⟨s.node, .inr rfl⟩
  · split
    · exact ⟨_, .inr rfl⟩
    · split
      · exact ⟨_, .inr rfl⟩
      · split
        · exact ⟨_, .inl rfl⟩
        · split
          · exact ⟨_, .inr rfl⟩
          · exact ⟨_, .inr rfl⟩

theorem goParent_returns (p : Program σ κ) (app : σ) (s : Session κ) :
    Returns s (p.goParent app s) := by
  obtain ⟨node, h | h⟩ := p.goParent_cases app s
  · rw [h]
    exact popParent_returns (s.setNode node)
  · rw [h]
    exact clearParents_returns (s.setNode node)

theorem climb_returns (p : Program σ κ) (app : σ) (fuel : Nat) (last : NodeId)
    (s : Session κ) : Returns s (p.climb app fuel last s).2 := by
  induction fuel generalizing last s with
  | zero => exact .refl s
  | succ fuel ih =>
    unfold climb
    split
    · exact .refl s
    · split
      · exact .refl s
      · exact (p.goParent_returns app s).trans (ih _ _)

theorem exit_returns (p : Program σ κ) (c : Console σ κ φ) :
    Returns c.session (p.exit c).session := by
  unfold exit
  split
  · exact .of_eq rfl
  · split
    · exact .of_eq rfl
    · split
      · exact p.goParent_returns c.app c.session
      · exact .refl _

variable [FileStore φ]

theorem leaveConfig_returns (p : Program σ κ) (c : Console σ κ φ) :
    Returns c.session (p.leaveConfig c).session := by
  unfold leaveConfig
  split
  · exact .refl _
  · have hclimb := p.climb_returns c.app (p.ascentBound c.session) .config c.session
    refine hclimb.trans ?_
    -- The number of steps is a large literal, and nothing below depends on it.
    generalize p.climb c.app (p.ascentBound c.session) .config c.session = found
    obtain ⟨stuck, s⟩ := found
    by_cases h : NodeId.enable.value < s.node.value <;> cases stuck <;>
      exact .of_eq (by simp [Console.mapSession, Console.log, h, indents, setNode, clearContext])

end Program

-- ============================================================================
-- Commands that touch no level
-- ============================================================================

namespace Console

variable {σ κ φ : Type}

/-- To encrypt a password a salt is drawn, and no more. -/
theorem typedSecret_keeps (c : Console σ κ φ) (args : List String) :
    ∃ world, (c.typedSecret args).2 = { c with world } := by
  unfold typedSecret
  split
  · split <;> exact ⟨c.world, rfl⟩
  · dsimp only
    split
    · exact ⟨c.world, rfl⟩
    · split <;> exact ⟨_, rfl⟩

theorem setSecret_moves (c : Console σ κ φ) (args : List String)
    (keep : Secret → Host → Host) : c.session.Moves (c.setSecret args keep).2.session := by
  obtain ⟨world, hkeeps⟩ := c.typedSecret_keeps args
  unfold setSecret
  generalize c.typedSecret args = typed at hkeeps ⊢
  obtain ⟨_ | _, c'⟩ := typed
  all_goals obtain rfl : c' = { c with world } := hkeeps
  · exact .refl _
  · exact .printLine _ _

theorem encryptPasswords_moves (c : Console σ κ φ) :
    c.session.Moves c.encryptPasswords.2.session := by
  unfold encryptPasswords
  dsimp only
  split
  · exact .refl _
  · exact .printLine _ _

variable [FileStore φ]

theorem setLogging_moves (c : Console σ κ φ) (edit : LogSettings → LogSettings) :
    c.session.Moves (c.setLogging edit).2.session := by
  unfold setLogging
  dsimp only
  split
  · exact .refl _
  · exact .printLine _ _

theorem setDestination_moves (c : Console σ κ φ) (word : Option String)
    (edit : Severity → LogSettings → LogSettings) :
    c.session.Moves (c.setDestination word edit).2.session := by
  unfold setDestination
  split
  · exact c.setLogging_moves _
  · exact .refl _

theorem showSaved_moves (c : Console σ κ φ) : c.session.Moves c.showSaved.2.session := by
  unfold showSaved
  dsimp only
  split
  · exact .foldl_printLine _ _
  · exact .printLine _ _

end Console

/-- No command of the application touches the levels of a session. -/
def Application.KeepsLevels {σ κ : Type} (a : Application σ κ) : Prop :=
  ∀ spec args app s, (a.execute spec args app s).2.2.parents = s.parents ∧
    (a.execute spec args app s).2.2.indent = s.indent

theorem Application.KeepsLevels.indents_eq {σ κ : Type} {a : Application σ κ}
    (h : a.KeepsLevels) (spec : CommandSpec) (args : List String) (app : σ) (s : Session κ) :
    (a.execute spec args app s).2.2.indents = s.indents := by
  obtain ⟨hparents, hindent⟩ := h spec args app s
  rw [Session.indents, Session.indents, hparents, hindent]

namespace Program

open Session

variable {σ κ φ : Type} [FileStore φ]

/-- Files are written, and the log. -/
theorem save_keeps (p : Program σ κ) (c : Console σ κ φ) :
    ∃ world, (p.save c).2 = { c with world } := by
  unfold save
  split
  · exact ⟨c.world, rfl⟩
  · split
    · exact ⟨c.world, rfl⟩
    · unfold saveTo
      dsimp only
      split <;> exact ⟨_, rfl⟩

theorem writeFile_keeps (p : Program σ κ) (c : Console σ κ φ) :
    ∃ world text, (p.writeFile c).2 = ({ c with world } : Console σ κ φ).printLine text := by
  obtain ⟨world, hsave⟩ := p.save_keeps c
  unfold writeFile
  generalize p.save c = saved at hsave ⊢
  obtain ⟨result, c'⟩ := saved
  obtain rfl : c' = { c with world } := hsave
  split <;> rename_i heq <;> cases heq <;> exact ⟨world, _, rfl⟩

theorem writeFile_moves (p : Program σ κ) (c : Console σ κ φ) :
    c.session.Moves (p.writeFile c).2.session := by
  obtain ⟨world, text, hkeeps⟩ := p.writeFile_keeps c
  rw [hkeeps]
  exact .printLine _ _

-- ============================================================================
-- Lines
-- ============================================================================

/-- Apart from those that go up, the commands of the library move a session and print
    into it, and do no more to it. -/
theorem runBuiltin_moves (p : Program σ κ) {command : Builtin} (hexit : command ≠ .exit)
    (hleave : command ≠ .leave) (args : List String) (c : Console σ κ φ) :
    c.session.Moves (p.runBuiltin command args c).2.session := by
  cases command <;> simp only [runBuiltin]
  case exit => exact absurd rfl hexit
  case leave => exact absurd rfl hleave
  case showVersion | list | help | writeTerminal | showLogging => exact .print _ _
  case echo => exact .printLine _ _
  case enable | configure => exact .setNode _ _
  case noTerminalLength => exact .setLines _ _
  case writeFile => exact p.writeFile_moves c
  case showStartup => exact c.showSaved_moves
  case password | enablePassword => exact c.setSecret_moves _ _
  case encryption => exact c.encryptPasswords_moves
  case logStdout | logFile => exact c.setDestination_moves _ _
  case noLogStdout | noLogFile | noLogTrap | recordPriority | noRecordPriority =>
    exact c.setLogging_moves _
  case disable =>
    show c.session.Moves
      (if c.session.node = .enable then c.session.setNode .view else c.session)
    split
    · exact .setNode _ _
    · exact .refl _
  case hostname =>
    split
    · exact .refl _
    · exact .printLine _ _
  case terminalLength =>
    unfold Console.setLength
    split
    · exact .setLines _ _
    · exact .refl _
  case serviceTerminalLength =>
    unfold Console.setLength
    split <;> exact .refl _
  case logTrap =>
    cases args with
    | nil => exact .refl _
    | cons word rest => exact c.setDestination_moves _ _
  case logMessage =>
    cases args with
    | nil => exact .refl _
    | cons word message =>
      dsimp only
      split <;> exact .refl _
  all_goals exact .refl _

/-- Apart from those that go up, the commands of the library keep the place. -/
theorem runBuiltin_keepsPlace (p : Program σ κ) {command : Builtin} (hexit : command ≠ .exit)
    (hleave : command ≠ .leave) (args : List String) (c : Console σ κ φ) :
    c.session.KeepsPlace (p.runBuiltin command args c).2.session :=
  (p.runBuiltin_moves hexit hleave args c).keepsPlace

/-- The commands of the library return from levels, and do no more to them. -/
theorem runBuiltin_returns (p : Program σ κ) (command : Builtin) (args : List String)
    (c : Console σ κ φ) : Returns c.session (p.runBuiltin command args c).2.session := by
  by_cases hexit : command = .exit
  · rw [hexit]
    exact p.exit_returns c
  · by_cases hleave : command = .leave
    · rw [hleave]
      exact p.leaveConfig_returns c
    · exact (p.runBuiltin_keepsPlace hexit hleave args c).returns

theorem closeIfFatal_keepsPlace (found : Resolved) (outcome : Outcome) (c : Console σ κ φ) :
    c.session.KeepsPlace (closeIfFatal found outcome c).session := by
  unfold closeIfFatal
  split <;> exact ⟨rfl, rfl, rfl, rfl⟩

theorem perform_of_builtin (p : Program σ κ) {found : Resolved} {command : Builtin}
    (c : Console σ κ φ) (haction : found.element.spec.action = .builtin command) :
    p.perform found c = p.runBuiltin command found.arguments c := by
  unfold perform
  rw [haction]

theorem dispatch_of_error (p : Program σ κ) {words : List String} {strict : Bool}
    {c : Console σ κ φ} {e : CommandError}
    (h : resolve (p.registry.elements c.session.node) words strict p.limits.arguments = .error e) :
    p.dispatch words strict c = (.error e, c) := by
  unfold dispatch
  dsimp only
  rw [h]

/-- A command of another daemon is not carried out. -/
theorem dispatch_of_daemon (p : Program σ κ) {words : List String} {strict : Bool}
    {c : Console σ κ φ} {found : Resolved}
    (h : resolve (p.registry.elements c.session.node) words strict p.limits.arguments = .ok found)
    (hdaemon : found.element.spec.daemon ≠ 0) : p.dispatch words strict c = (.ok .daemon, c) := by
  unfold dispatch
  dsimp only
  rw [h]
  exact if_pos hdaemon

theorem dispatch_of_found (p : Program σ κ) {words : List String} {strict : Bool}
    {c : Console σ κ φ} {found : Resolved}
    (h : resolve (p.registry.elements c.session.node) words strict p.limits.arguments = .ok found)
    (hdaemon : found.element.spec.daemon = 0) :
    p.dispatch words strict c =
      ((p.perform found c).1, closeIfFatal found (p.perform found c).1 (p.perform found c).2) := by
  unfold dispatch
  dsimp only
  rw [h]
  exact if_neg fun hother => hother hdaemon

/-- A line means nothing, or a command of another daemon, or a command that is carried
    out. -/
theorem dispatch_cases (p : Program σ κ) (words : List String) (strict : Bool)
    (c : Console σ κ φ) :
    (∃ e, resolve (p.registry.elements c.session.node) words strict p.limits.arguments =
        .error e ∧ p.dispatch words strict c = (.error e, c)) ∨
      ∃ found, resolve (p.registry.elements c.session.node) words strict p.limits.arguments =
          .ok found ∧
        (found.element.spec.daemon ≠ 0 ∧ p.dispatch words strict c = (.ok .daemon, c) ∨
          found.element.spec.daemon = 0 ∧ p.dispatch words strict c =
            ((p.perform found c).1,
              closeIfFatal found (p.perform found c).1 (p.perform found c).2)) := by
  cases hresolve : resolve (p.registry.elements c.session.node) words strict
    p.limits.arguments with
  | error e => exact .inl ⟨e, rfl, p.dispatch_of_error hresolve⟩
  | ok found =>
    refine .inr ⟨found, rfl, ?_⟩
    by_cases hdaemon : found.element.spec.daemon = 0
    · exact .inr ⟨hdaemon, p.dispatch_of_found hresolve hdaemon⟩
    · exact .inl ⟨hdaemon, p.dispatch_of_daemon hresolve hdaemon⟩

theorem execute_of_blank (p : Program σ κ) {line : String} (c : Console σ κ φ)
    (hblank : (Line.parse line).isEmpty = true) : p.execute line c = (.ok .success, c) := by
  unfold execute
  exact if_pos hblank

theorem execute_of_plain (p : Program σ κ) {line : String} {c : Console σ κ φ}
    (hwords : (Line.parse line).isEmpty = false)
    (hplain : isShortcut c.session.node (Line.parse line).first? = false) :
    p.execute line c = p.dispatch (Line.parse line).words false c := by
  unfold execute
  simp only [hwords, hplain, Bool.false_eq_true, if_false]

/-- Behind `do` a line is run at the privileged commands, and the session goes back. -/
theorem execute_of_shortcut (p : Program σ κ) {line : String} {c : Console σ κ φ}
    (hshortcut : isShortcut c.session.node (Line.parse line).first? = true) :
    p.execute line c =
      ((p.dispatch (Line.parse line).words.tail false (c.mapSession (·.setNode .enable))).1,
        (p.dispatch (Line.parse line).words.tail false
          (c.mapSession (·.setNode .enable))).2.mapSession (·.setNode c.session.node)) := by
  have hwords : (Line.parse line).isEmpty = false := by
    unfold isShortcut Line.first? at hshortcut
    unfold Line.isEmpty
    cases hwords : (Line.parse line).words with
    | nil => simp [hwords] at hshortcut
    | cons word rest => rfl
  unfold execute
  simp only [hwords, hshortcut, Bool.false_eq_true, if_false, if_true]

/-- Running a line returns from levels, and does no more to them, if the
    application leaves them alone. -/
theorem dispatch_returns (p : Program σ κ) (happ : p.application.KeepsLevels)
    (words : List String) (strict : Bool) (c : Console σ κ φ) :
    Returns c.session (p.dispatch words strict c).2.session := by
  rcases p.dispatch_cases words strict c with
    ⟨e, -, hrun⟩ | ⟨found, -, ⟨-, hrun⟩ | ⟨-, hrun⟩⟩
  · rw [hrun]
    exact .refl _
  · rw [hrun]
    exact .refl _
  · have hperform : Returns c.session (p.perform found c).2.session := by
      unfold perform
      split
      · exact p.runBuiltin_returns _ _ c
      · exact .of_eq (happ.indents_eq _ _ _ _)
    rw [hrun]
    exact hperform.trans (closeIfFatal_keepsPlace found _ _).returns

end Program

end RouterCli
